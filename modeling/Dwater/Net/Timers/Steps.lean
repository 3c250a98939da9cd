import Dwater.Net.Timers.Places

/-! # What a step can do to a timer

A Timer enters the sets by `AddTimerInLoop` and leaves them by `CancelInLoop`, when it is
deleted, or by `GetExpired`, for the batch. `Reset` puts a repeating Timer of the batch back
at `now` plus its interval, unless it has been cancelled, and deletes the others. The clock
may be set forwards and back in between.
-/

set_option autoImplicit false
namespace Dwater

open Fallible

@[simp] theorem Timer.restart_repeats (t : Timer) (now : Timestamp) :
    (t.restart now).repeats = t.repeats := by
  unfold Timer.restart
  split <;> rfl

@[simp] theorem Timer.restart_sequence (t : Timer) (now : Timestamp) :
    (t.restart now).sequence = t.sequence := by
  unfold Timer.restart
  split <;> rfl

theorem Timer.restart_eq {t : Timer} (h : t.repeats = true) {now : Timestamp} :
    t.restart now = { t with expiration := now.addTime t.interval } := by
  rw [Timer.restart, if_pos h]

/-- A step of the system, or a change of the clock to any time. -/
inductive ClockedLabel
  | setClock (now : Timestamp)
  | act (l : TimerLabel)
  deriving DecidableEq, Repr

namespace TimerQueue

variable {q q' : TimerQueue} {scheduled : Finset TimerPtr} {n : ℕ} {p : TimerPtr} {t t' : Timer}
  {x : ClockedLabel}

def upcoming (q : TimerQueue) : List TimerEntry :=
  match q.batch with
  | some b => b.upcoming
  | none => []

theorem upcoming_eq {b : ExpiredBatch} (hb : q.batch = some b) : q.upcoming = b.upcoming := by
  simp [upcoming, hb]

theorem upcoming_none (hb : q.batch = none) : q.upcoming = [] := by
  simp [upcoming, hb]

def Enabled (q : TimerQueue) : TimerLabel → Prop
  | .tick now => q.clock ≤ now
  | .newTimer timer _ _ => q.heap.get timer = none ∧ timer ≠ uintptrMax
  | .addTimerInLoop timer => timer ∈ q.waiting
  | .cancelInLoop _ => True
  | .handleRead readAt => q.batch = none ∧ q.clock ≤ readAt
  | .runCallback => q.upcoming ≠ []
  | .finishRead => ∃ b, q.batch = some b ∧ b.upcoming = []

def clockedStep (q : TimerQueue) : ClockedLabel → Except Fault TimerQueue
  | .setClock now => return { q with clock := now }
  | .act l => q.step l

/-- The batch and the flag that `CancelInLoop` reads come and go together. -/
def BatchFlagged (q : TimerQueue) : Prop := q.callingExpiredTimers = q.batch.isSome

/-- The Timer created as number `n` is in `timers_`, at the address `p` and with the value `t`. -/
structure Scheduled (q : TimerQueue) (n : ℕ) (p : TimerPtr) (t : Timer) : Prop where
  cell : q.heap.cell p = some (n, t)
  mem_timers : toLex (t.expiration, p) ∈ q.timers

theorem Scheduled.get (h : q.Scheduled n p t) : q.heap.get p = some t :=
  Heap.get_eq_some.mpr ⟨n, h.cell⟩

theorem Scheduled.mem (h : q.Scheduled n p t) (hk : q.Keyed scheduled) : p ∈ scheduled :=
  (hk.mem_timers h.get).mp h.mem_timers

theorem Scheduled.active (h : q.Scheduled n p t) (hk : q.Keyed scheduled) :
    (p, t.sequence) ∈ q.activeTimers :=
  (hk.mem_active h.get).mpr (h.mem hk)

def settled (q : TimerQueue) (now : Timestamp) (p : TimerPtr) (n : ℕ) (t : Timer) :
    Option (ℕ × Timer) :=
  if t.repeats ∧ (p, t.sequence) ∉ q.cancelingTimers then some (n, t.restart now) else none

theorem insert_heap {b : Bool} (hq : q.insert p = .ok (q', b)) :
    q'.heap = q.heap ∧ q'.waiting = q.waiting ∧ q'.cancelingTimers = q.cancelingTimers := by
  obtain ⟨-, hq⟩ := check_bind_eq_ok hq
  obtain ⟨t, -, hq⟩ := bind_eq_ok hq
  obtain ⟨-, hq⟩ := check_bind_eq_ok hq
  obtain ⟨-, hq⟩ := check_bind_eq_ok hq
  obtain ⟨-, hq⟩ := check_bind_eq_ok hq
  cases hq
  exact ⟨rfl, rfl, rfl⟩

/-- What the loop of `Reset` does to the Timers. -/
structure Resets (now : Timestamp) (q : TimerQueue) (expired : List TimerPtr) (q' : TimerQueue) :
    Prop where
  created_eq : q'.heap.created = q.heap.created
  canceling_eq : q'.cancelingTimers = q.cancelingTimers
  cell_other : ∀ p ∉ expired, q'.heap.cell p = q.heap.cell p
  cell_expired : ∀ p ∈ expired, ∀ n t, q.heap.cell p = some (n, t) →
    q'.heap.cell p = q.settled now p n t

theorem resetOne_resets {now : Timestamp} {it : TimerEntry}
    (hc : q.heap.cell (ofLex it).2 = some (n, t)) (hq : resetOne now q it = .ok q') :
    Resets now q [(ofLex it).2] q' := by
  have hget : q.heap.get (ofLex it).2 = some t := Heap.get_eq_some.mpr ⟨n, hc⟩
  have hexpired : q'.heap.cell (ofLex it).2 = q.settled now (ofLex it).2 n t →
      ∀ p ∈ [(ofLex it).2], ∀ m u, q.heap.cell p = some (m, u) →
        q'.heap.cell p = q.settled now p m u := by
    intro hcell p hp m u hu
    obtain rfl := List.mem_singleton.mp hp
    cases hc.symm.trans hu
    exact hcell
  have hne : ∀ {p}, p ∉ [(ofLex it).2] → p ≠ (ofLex it).2 :=
    fun hp heq => hp (List.mem_singleton.mpr heq)
  rw [resetOne, deref_eq hget] at hq
  change (if _ then _ else _) = _ at hq
  split at hq
  · next hr =>
    obtain ⟨⟨q₁, b⟩, hins, hq⟩ := bind_eq_ok hq
    cases hq
    obtain ⟨hheap, -, hcanceling⟩ := insert_heap hins
    refine ⟨?_, hcanceling, fun p hp => ?_, hexpired ?_⟩
    · rw [hheap, Heap.created_set]
    · rw [hheap, Heap.cell_set hc, Function.update_of_ne (hne hp)]
    · rw [hheap, Heap.cell_set hc, Function.update_self, settled, if_pos hr]
  · next hr =>
    rw [delete_eq hget] at hq
    cases hq
    refine ⟨Heap.created_delete _ _, rfl, fun p hp => ?_, hexpired ?_⟩
    · change (q.heap.delete _).cell p = _
      rw [Heap.cell_delete, Function.update_of_ne (hne hp)]
    · change (q.heap.delete _).cell _ = _
      rw [Heap.cell_delete, Function.update_self, settled, if_neg hr]

theorem Resets.cons {now : Timestamp} {expired : List TimerPtr} {q'' : TimerQueue}
    (hnew : p ∉ expired) (h : Resets now q [p] q') (h' : Resets now q' expired q'') :
    Resets now q (p :: expired) q'' := by
  have hmem : ∀ {r}, r ∈ [p] → r = p := List.mem_singleton.mp
  refine ⟨h'.created_eq.trans h.created_eq, h'.canceling_eq.trans h.canceling_eq, ?_, ?_⟩
  · intro r hr
    obtain ⟨hne, hr⟩ := List.ne_and_not_mem_of_not_mem_cons hr
    rw [h'.cell_other r hr, h.cell_other r fun hm => hne (hmem hm)]
  · intro r hr n t hc
    rcases List.mem_cons.mp hr with rfl | hr
    · rw [h'.cell_other r hnew, h.cell_expired r (List.mem_singleton_self r) n t hc]
    · have hrp : r ∉ [p] := by
        intro hm
        cases hmem hm
        exact hnew hr
      rw [h'.cell_expired r hr n t ((h.cell_other r hrp).trans hc), settled, settled,
        h.canceling_eq]

theorem run_resets {now : Timestamp} {entries : List TimerEntry} :
    ∀ {q q' : TimerQueue}, (pointers entries).Nodup →
      (∀ r ∈ pointers entries, ∃ n t, q.heap.cell r = some (n, t)) →
      run (resetOne now) q entries = .ok q' → Resets now q (pointers entries) q' := by
  induction entries with
  | nil =>
    intro q q' _ _ hq
    cases hq
    exact ⟨rfl, rfl, fun _ _ => rfl, fun _ hp => absurd hp List.not_mem_nil⟩
  | cons it entries ih =>
    intro q q' hnd hlive hq
    obtain ⟨q₁, h₁, hq⟩ := bind_eq_ok hq
    obtain ⟨hnew, hnd⟩ := List.nodup_cons.mp hnd
    obtain ⟨n, t, hc⟩ := hlive _ List.mem_cons_self
    have hone := resetOne_resets hc h₁
    refine hone.cons hnew (ih hnd (fun r hr => ?_) hq)
    rw [hone.cell_other r]
    · exact hlive r (List.mem_cons_of_mem _ hr)
    · intro hm
      cases List.mem_singleton.mp hm
      exact hnew hr

theorem reset_run {now : Timestamp} {entries : List TimerEntry}
    (hq : q.reset entries now = .ok q') :
    ∃ q₁, run (resetOne now) q entries = .ok q₁ ∧ q'.heap = q₁.heap := by
  obtain ⟨q₁, h₁, hq⟩ := bind_eq_ok hq
  refine ⟨q₁, h₁, ?_⟩
  have hfd : ∀ next : Timestamp, (if next.valid then pure (q₁.resetTimerfd next) else pure q₁ :
      Except Fault TimerQueue) = .ok q' → q'.heap = q₁.heap := by
    intro next hq
    split at hq
    · cases hq
      rfl
    · cases hq
      rfl
  dsimp only at hq
  split at hq
  · obtain ⟨next, -, hq⟩ := bind_eq_ok hq
    exact hfd next hq
  · obtain ⟨next, -, hq⟩ := bind_eq_ok hq
    exact hfd next hq

structure Rescheduled (q : TimerQueue) (b : ExpiredBatch) (q' : TimerQueue) : Prop where
  created_eq : q'.heap.created = q.heap.created
  calling_eq : q'.callingExpiredTimers = false
  waiting_eq : q'.waiting = q.waiting
  batch_eq : q'.batch = none
  mem_timers : ∀ e, e ∈ q'.timers ↔ e ∈ q.timers ∨
    ∃ p ∈ pointers b.expired, ∃ t, q.Rearmed p t ∧ e = toLex (b.now.addTime t.interval, p)
  cell_other : ∀ p ∉ pointers b.expired, q'.heap.cell p = q.heap.cell p
  cell_expired : ∀ p ∈ pointers b.expired, ∀ n t, q.heap.cell p = some (n, t) →
    q'.heap.cell p = q.settled b.now p n t

theorem Inv.finishRead_rescheduled (h : q.Inv scheduled) {b : ExpiredBatch}
    (hb : q.batch = some b) (hq : q.finishRead b = .ok q') : q.Rescheduled b q' := by
  obtain ⟨q₁, q₂, hs, -, hfd, heq⟩ := (h.finishRead_settled hb).of_eq hq
  obtain ⟨r, hr, hret⟩ := bind_eq_ok hq
  obtain ⟨r₁, hrun, hheap⟩ := reset_run hr
  have hexp : ∀ p ∈ pointers b.expired, ∃ n t, q.heap.cell p = some (n, t) := by
    rw [← expiredTimers_eq hb]
    intro p hp
    obtain ⟨t, ht⟩ := h.owned.get_expired hp
    obtain ⟨n, hc⟩ := Heap.get_eq_some.mp ht
    exact ⟨n, t, hc⟩
  have hresets := run_resets (q := { q with callingExpiredTimers := false })
    (expiredTimers_eq hb ▸ h.owned.nodup) hexp hrun
  have hheap' : q'.heap = r₁.heap := by
    cases hret
    exact hheap
  have hq₂ : q₂.timers = q₁.timers ∧ q₂.waiting = q₁.waiting ∧
      q₂.callingExpiredTimers = q₁.callingExpiredTimers := by
    rcases hfd with ⟨e, -, -, rfl⟩ | ⟨-, rfl⟩
    · exact ⟨rfl, rfl, rfl⟩
    · exact ⟨rfl, rfl, rfl⟩
  constructor
  · rw [hheap', hresets.created_eq]
  · rw [heq]
    exact hq₂.2.2.trans hs.calling_eq
  · rw [heq]
    exact hq₂.2.1.trans hs.waiting_eq
  · rw [heq]
  · intro e
    rw [heq]
    change e ∈ q₂.timers ↔ _
    rw [hq₂.1]
    exact hs.mem_timers e
  · rw [hheap']
    exact hresets.cell_other
  · rw [hheap']
    exact hresets.cell_expired

/-- The steps of a queue whose sets hold the Timers of `scheduled`. -/
inductive Stepped (scheduled : Finset TimerPtr) (q : TimerQueue) : ClockedLabel → TimerQueue → Prop
  | idle {l : TimerLabel} (h : ¬ q.Enabled l) : Stepped scheduled q (.act l) q
  | setClock (now : Timestamp) : Stepped scheduled q (.setClock now) { q with clock := now }
  | tick {now : Timestamp} (h : q.clock ≤ now) :
      Stepped scheduled q (.act (.tick now)) { q with clock := now }
  | newTimer {p : TimerPtr} {when : Timestamp} {interval : Seconds}
      (h : q.heap.get p = none ∧ p ≠ uintptrMax) :
      Stepped scheduled q (.act (.newTimer p when interval)) { q with
        heap := q.heap.new p (.new when interval (.ofNat (q.heap.created + 1)))
        waiting := Insert.insert p q.waiting }
  | addTimerInLoop {p : TimerPtr} {t : Timer} (fd : Timerfd) (hp : p ∈ q.waiting)
      (ht : q.heap.get p = some t) :
      Stepped scheduled q (.act (.addTimerInLoop p))
        { { q with waiting := q.waiting.erase p }.put p t with timerfd := fd }
  | drop {timerId : TimerId} {p : TimerPtr} {t : Timer} (hid : timerId = ⟨p, t.sequence⟩)
      (hp : p ∈ scheduled) (ht : q.heap.get p = some t) :
      Stepped scheduled q (.act (.cancelInLoop timerId)) (q.drop p t)
  | mark {timerId : TimerId} (ha : (timerId.timer, timerId.sequence) ∉ q.activeTimers)
      (hc : q.callingExpiredTimers = true) :
      Stepped scheduled q (.act (.cancelInLoop timerId)) { q with
        cancelingTimers := Insert.insert (timerId.timer, timerId.sequence) q.cancelingTimers }
  | ignore {timerId : TimerId} (ha : (timerId.timer, timerId.sequence) ∉ q.activeTimers)
      (hc : q.callingExpiredTimers = false) : Stepped scheduled q (.act (.cancelInLoop timerId)) q
  | handleRead {readAt : Timestamp} (hb : q.batch = none) (hr : q.clock ≤ readAt) :
      Stepped scheduled q (.act (.handleRead readAt)) (q.entered readAt scheduled)
  | runCallback {b : ExpiredBatch} {it : TimerEntry} {its : List TimerEntry}
      (hb : q.batch = some b) (hu : b.upcoming = it :: its) :
      Stepped scheduled q (.act .runCallback) { q with batch := some { b with upcoming := its } }
  | finishRead {b : ExpiredBatch} {q' : TimerQueue} (hb : q.batch = some b)
      (hu : b.upcoming = []) (hq : q.Rescheduled b q') : Stepped scheduled q (.act .finishRead) q'

theorem Inv.step_stepped (h : q.Inv scheduled) {l : TimerLabel} (hq : q.step l = .ok q') :
    Stepped scheduled q (.act l) q' := by
  have hidle : ¬ q.Enabled l → (Except.ok q : Except Fault TimerQueue) = .ok q' →
      Stepped scheduled q (.act l) q' := by
    intro hl hq
    cases hq
    exact .idle hl
  cases l with
  | tick now =>
    simp only [step] at hq
    split at hq
    · next hnow =>
      cases hq
      exact .tick hnow
    · next hnow => exact hidle hnow hq
  | newTimer p when interval =>
    simp only [step] at hq
    split at hq
    · next hp =>
      cases hq
      exact .newTimer hp
    · next hp => exact hidle hp hq
  | addTimerInLoop p =>
    simp only [step] at hq
    split at hq
    · next hp =>
      obtain ⟨t, ht⟩ := h.owned.get_waiting hp
      rw [h.owned.addTimerInLoop_eq hp ht] at hq
      split at hq
      · cases hq
        exact .addTimerInLoop _ hp ht
      · cases hq
        exact .addTimerInLoop q.timerfd hp ht
    · next hp => exact hidle hp hq
  | cancelInLoop timerId =>
    obtain ⟨p, t, hid, hp, ht, heq⟩ | ⟨ha, hc, heq⟩ | ⟨ha, hc, heq⟩ :=
      h.owned.keyed.cancelInLoop_cases h.owned.live timerId
    · cases heq.symm.trans hq
      exact .drop hid hp ht
    · cases heq.symm.trans hq
      exact .mark ha hc
    · cases heq.symm.trans hq
      exact .ignore ha hc
  | handleRead readAt =>
    simp only [step] at hq
    split at hq
    · next hb =>
      rw [h.owned.handleRead_eq] at hq
      cases hq
      exact .handleRead hb.1 hb.2
    · next hb => exact hidle hb hq
  | runCallback =>
    simp only [step] at hq
    split at hq
    · next b hb =>
      split at hq
      · next it its hu =>
        rw [h.runCallback_eq hb hu] at hq
        cases hq
        exact .runCallback hb hu
      · next hu => exact hidle (fun hl => hl ((upcoming_eq hb).trans hu)) hq
    · next hb =>
      exact hidle (fun hl => hl (upcoming_none hb)) hq
  | finishRead =>
    simp only [step] at hq
    split at hq
    · next b hb =>
      split at hq
      · next hu => exact .finishRead hb hu (h.finishRead_rescheduled hb hq)
      · next hu =>
        refine hidle ?_ hq
        rintro ⟨b', hb', hu'⟩
        cases hb.symm.trans hb'
        exact hu hu'
    · next hb =>
      refine hidle ?_ hq
      rintro ⟨b, hb', -⟩
      cases hb.symm.trans hb'

theorem clockedStep_inv (q : TimerQueue) (x : ClockedLabel) (h : ∃ scheduled, q.Inv scheduled) :
    Yields (q.clockedStep x) fun q' => ∃ scheduled, q'.Inv scheduled := by
  cases x with
  | setClock now =>
    obtain ⟨scheduled, h⟩ := h
    exact yields_pure.mpr ⟨scheduled, h.owned.of_eq rfl rfl rfl rfl, h.upcoming⟩
  | act l => exact step_inv q l h

theorem Inv.stepped (h : q.Inv scheduled) (hq : q.clockedStep x = .ok q') :
    Stepped scheduled q x q' := by
  cases x with
  | setClock now =>
    cases hq
    exact .setClock now
  | act l => exact h.step_stepped hq

theorem Rescheduled.cell_old {b : ExpiredBatch} (h : q.Rescheduled b q') (hinv : q.Inv scheduled)
    (hb : q.batch = some b) (hc : q'.heap.cell p = some (n, t')) :
    (p ∉ pointers b.expired ∧ q.heap.cell p = some (n, t')) ∨
    ∃ t, p ∈ pointers b.expired ∧ q.heap.cell p = some (n, t) ∧ t.repeats = true ∧
      (p, t.sequence) ∉ q.cancelingTimers ∧ t' = t.restart b.now := by
  by_cases hp : p ∈ pointers b.expired
  · obtain ⟨t, ht⟩ := hinv.owned.get_expired (expiredTimers_eq hb ▸ hp)
    obtain ⟨m, hm⟩ := Heap.get_eq_some.mp ht
    rw [h.cell_expired p hp m t hm, settled] at hc
    split at hc
    · next hr =>
      cases hc
      exact .inr ⟨t, hp, hm, hr.1, hr.2, rfl⟩
    · cases hc
  · exact .inl ⟨hp, h.cell_other p hp ▸ hc⟩

theorem Stepped.cell_old (hs : Stepped scheduled q x q') (hinv : q.Inv scheduled)
    (hc : q'.heap.cell p = some (n, t')) (hn : n < q.heap.created) :
    q.heap.cell p = some (n, t') ∨ ∃ b t, x = .act .finishRead ∧ q.batch = some b ∧
      p ∈ pointers b.expired ∧ q.heap.cell p = some (n, t) ∧ t.repeats = true ∧
      (p, t.sequence) ∉ q.cancelingTimers ∧ t' = t.restart b.now := by
  cases hs with
  | idle | setClock | tick | addTimerInLoop | mark | ignore | handleRead | runCallback =>
    exact .inl hc
  | @newTimer r _ _ hr =>
    refine .inl ?_
    by_cases hpr : p = r
    · subst hpr
      rw [Heap.cell_new hr.1, Function.update_self] at hc
      cases hc
      exact absurd hn (lt_irrefl _)
    · rwa [Heap.cell_new_of_ne hr.1 hpr] at hc
  | drop => exact .inl (drop_cell_eq_some.mp hc).2
  | @finishRead b _ hb hu hq =>
    rcases hq.cell_old hinv hb hc with ⟨-, hc⟩ | ⟨t, hp, hc, hrep, hnot, ht⟩
    · exact .inl hc
    · exact .inr ⟨b, t, rfl, hb, hp, hc, hrep, hnot, ht⟩

theorem Inv.lt_sentry (hinv : q.Inv scheduled) (hc : q.heap.cell p = some (n, t))
    {when now : Timestamp} : toLex (when, p) < sentry now ↔ when ≤ now := by
  refine TimerQueue.lt_sentry (e := toLex (when, p)) ?_
  rintro rfl
  rw [Heap.get_eq_none.mp hinv.owned.free_max] at hc
  cases hc

theorem Inv.mem_dueEntries (hinv : q.Inv scheduled) (hc : q.heap.cell p = some (n, t))
    {now : Timestamp} :
    toLex (t.expiration, p) ∈ q.dueEntries now ↔ q.Scheduled n p t ∧ t.expiration ≤ now := by
  rw [TimerQueue.mem_dueEntries, hinv.lt_sentry hc]
  exact and_congr_left fun _ => ⟨fun he => ⟨hc, he⟩, fun h => h.mem_timers⟩

theorem Inv.of_mem_dueEntries (hinv : q.Inv scheduled) {now : Timestamp} {e : TimerEntry}
    (he : e ∈ q.dueEntries now) :
    ∃ n t, q.Scheduled n (ofLex e).2 t ∧ t.expiration ≤ now ∧
      toLex (t.expiration, (ofLex e).2) = e := by
  obtain ⟨hp, hkey⟩ := hinv.owned.keyed.scheduled_of_timer (TimerQueue.mem_dueEntries.mp he).1
  obtain ⟨t, ht⟩ := Option.isSome_iff_exists.mp (hinv.owned.live _ hp)
  obtain ⟨n, hc⟩ := Heap.get_eq_some.mp ht
  rw [entryAt_eq ht] at hkey
  have hdue := (hinv.mem_dueEntries hc).mp (hkey.symm ▸ he)
  exact ⟨n, t, hdue.1, hdue.2, hkey⟩

theorem Inv.scheduled_entered (hinv : q.Inv scheduled) {readAt : Timestamp} :
    (q.entered readAt scheduled).Scheduled n p t ↔
      q.Scheduled n p t ∧ q.clock < t.expiration := by
  constructor
  · rintro ⟨hc, he⟩
    obtain ⟨he, hle⟩ := Finset.mem_filter.mp he
    refine ⟨⟨hc, he⟩, lt_of_not_ge fun hge => not_lt_of_ge hle ?_⟩
    exact (hinv.lt_sentry hc).mpr hge
  · rintro ⟨h, hlt⟩
    refine ⟨h.cell, Finset.mem_filter.mpr ⟨h.mem_timers, le_of_not_gt fun hgt => ?_⟩⟩
    exact not_le_of_gt hlt ((hinv.lt_sentry h.cell).mp hgt)

/-- Timers are scheduled by `AddTimerInLoop` and by `Reset` only. -/
theorem Stepped.scheduled_old (hs : Stepped scheduled q x q') (hinv : q.Inv scheduled)
    (h : q'.Scheduled n p t') :
    q.Scheduled n p t' ∨
    (x = .act (.addTimerInLoop p) ∧ p ∈ q.waiting ∧ q.heap.cell p = some (n, t')) ∨
    ∃ b t, x = .act .finishRead ∧ q.batch = some b ∧ p ∈ pointers b.expired ∧
      q.heap.cell p = some (n, t) ∧ t.repeats = true ∧ (p, t.sequence) ∉ q.cancelingTimers ∧
      t' = t.restart b.now := by
  cases hs with
  | idle | setClock | tick | mark | ignore | runCallback => exact .inl ⟨h.cell, h.mem_timers⟩
  | handleRead => exact .inl (hinv.scheduled_entered.mp h).1
  | @newTimer r _ _ hr =>
    have hlive := hinv.owned.live p (hinv.owned.keyed.scheduled_of_timer h.mem_timers).1
    have hpr : p ≠ r := by
      rintro rfl
      simp [hr.1] at hlive
    exact .inl ⟨(Heap.cell_new_of_ne hr.1 hpr _).symm.trans h.cell, h.mem_timers⟩
  | @addTimerInLoop r u _ hr hu =>
    rcases Finset.mem_insert.mp h.mem_timers with he | he
    · obtain rfl : p = r := congrArg (fun e => (ofLex e).2) he
      exact .inr (.inl ⟨rfl, hr, h.cell⟩)
    · exact .inl ⟨h.cell, he⟩
  | drop =>
    exact .inl ⟨(drop_cell_eq_some.mp h.cell).2, Finset.mem_of_mem_erase h.mem_timers⟩
  | @finishRead b _ hb hu hq =>
    rcases hq.cell_old hinv hb h.cell with ⟨hp, hc⟩ | ⟨t, hp, hc, hrep, hnot, ht⟩
    · refine .inl ⟨hc, ((hq.mem_timers _).mp h.mem_timers).resolve_right ?_⟩
      rintro ⟨r, hr, u, -, he⟩
      obtain rfl : p = r := congrArg (fun e => (ofLex e).2) he
      exact hp hr
    · exact .inr (.inr ⟨b, t, rfl, hb, hp, hc, hrep, hnot, ht⟩)

/-- Timers leave the sets by their own cancellation and for the batch only. -/
theorem Stepped.scheduled_kept (hs : Stepped scheduled q x q') (hinv : q.Inv scheduled)
    (h : q.Scheduled n p t) :
    q'.Scheduled n p t ∨
    x = .act (.cancelInLoop ⟨p, t.sequence⟩) ∨
    ∃ readAt, x = .act (.handleRead readAt) ∧ q.batch = none ∧ t.expiration ≤ q.clock := by
  cases hs with
  | idle | setClock | tick | mark | ignore | runCallback => exact .inl ⟨h.cell, h.mem_timers⟩
  | @handleRead readAt hb =>
    rcases le_or_gt t.expiration q.clock with hle | hlt
    · exact .inr (.inr ⟨readAt, rfl, hb, hle⟩)
    · exact .inl (hinv.scheduled_entered.mpr ⟨h, hlt⟩)
  | @newTimer r _ _ hr =>
    have hpr : p ≠ r := by
      rintro rfl
      rw [h.get] at hr
      cases hr.1
    exact .inl ⟨(Heap.cell_new_of_ne hr.1 hpr _).trans h.cell, h.mem_timers⟩
  | addTimerInLoop => exact .inl ⟨h.cell, Finset.mem_insert_of_mem h.mem_timers⟩
  | @drop _ r u hid hr hu =>
    by_cases hpr : p = r
    · subst hpr
      obtain rfl : t = u := Option.some.inj (h.get.symm.trans hu)
      exact .inr (.inl (by rw [hid]))
    · refine .inl ⟨drop_cell_eq_some.mpr ⟨hpr, h.cell⟩, ?_⟩
      refine Finset.mem_erase.mpr ⟨fun he => hpr ?_, h.mem_timers⟩
      exact congrArg (fun e => (ofLex e).2) he
  | @finishRead b _ hb hu hq =>
    have hp : p ∉ pointers b.expired := by
      rw [← expiredTimers_eq hb]
      exact fun hp => hinv.owned.expired_not p hp (h.mem hinv.owned.keyed)
    refine .inl ⟨?_, (hq.mem_timers _).mpr (.inl h.mem_timers)⟩
    rw [hq.cell_other p hp, h.cell]

theorem Stepped.not_scheduled {q' : TimerQueue} {timerId : TimerId}
    (hs : Stepped scheduled q (.act (.cancelInLoop timerId)) q') (hinv : q.Inv scheduled)
    (hid : timerId = ⟨p, t.sequence⟩) : ¬ q'.Scheduled n p t := by
  have hkeyed := hinv.owned.keyed
  intro h
  cases hs with
  | idle hl => exact hl trivial
  | @drop _ r u hid' =>
    obtain ⟨rfl, -⟩ := TimerId.mk.inj (hid.symm.trans hid')
    exact (drop_cell_eq_some.mp h.cell).1 rfl
  | mark ha | ignore ha =>
    rw [hid] at ha
    exact ha (Scheduled.active (q := q) ⟨h.cell, h.mem_timers⟩ hkeyed)

section Batch

variable {b : ExpiredBatch}

/-- Until `Reset` the Timers of the batch stay as they are. -/
theorem Stepped.cell_expired (hs : Stepped scheduled q x q') (hinv : q.Inv scheduled)
    (hx : x ≠ .act .finishRead) (hp : p ∈ q.expiredTimers) :
    q'.heap.cell p = q.heap.cell p := by
  cases hs with
  | idle | setClock | tick | addTimerInLoop | mark | ignore | handleRead | runCallback => rfl
  | @newTimer r _ _ hr =>
    refine Heap.cell_new_of_ne hr.1 ?_ _
    rintro rfl
    obtain ⟨t, ht⟩ := hinv.owned.get_expired hp
    rw [ht] at hr
    cases hr.1
  | @drop _ r u hid hr hu =>
    refine drop_cell_of_ne ?_
    rintro rfl
    exact hinv.owned.expired_not p hp hr
  | finishRead => exact absurd rfl hx

theorem Stepped.batch_kept (hs : Stepped scheduled q x q') (hx : x ≠ .act .finishRead)
    (hb : q.batch = some b) :
    (q'.batch = some b ∧ (x = .act .runCallback → b.upcoming = [])) ∨
    ∃ it its, x = .act .runCallback ∧ b.upcoming = it :: its ∧
      q'.batch = some { b with upcoming := its } := by
  cases hs with
  | @idle l hl =>
    refine .inl ⟨hb, fun hl' => ?_⟩
    cases hl'
    exact upcoming_eq hb ▸ not_not.mp hl
  | setClock | tick | newTimer | addTimerInLoop | drop | mark | ignore =>
    exact .inl ⟨hb, fun h => by cases h⟩
  | handleRead hnone =>
    rw [hb] at hnone
    cases hnone
  | @runCallback b' it its hb' hu =>
    obtain rfl : b = b' := Option.some.inj (hb.symm.trans hb')
    exact .inr ⟨it, its, rfl, hu, rfl⟩
  | finishRead => exact absurd rfl hx

theorem batch_of_mem_expired (hp : p ∈ q.expiredTimers) : ∃ b, q.batch = some b := by
  cases hb : q.batch with
  | none => simp [expiredTimers, hb] at hp
  | some b => exact ⟨b, rfl⟩

theorem Inv.expired_of_upcoming (hinv : q.Inv scheduled) (hp : p ∈ pointers q.upcoming) :
    p ∈ q.expiredTimers := by
  cases hb : q.batch with
  | none => simp [TimerQueue.upcoming_none hb, pointers] at hp
  | some b =>
    rw [TimerQueue.upcoming_eq hb] at hp
    obtain ⟨e, he, rfl⟩ := List.mem_map.mp hp
    rw [expiredTimers_eq hb]
    exact List.mem_map_of_mem (hinv.upcoming b hb e he)

theorem Stepped.expired_kept (hs : Stepped scheduled q x q') (hx : x ≠ .act .finishRead)
    (hp : p ∈ q.expiredTimers) : p ∈ q'.expiredTimers := by
  obtain ⟨b, hb⟩ := batch_of_mem_expired hp
  rw [expiredTimers_eq hb] at hp
  rcases hs.batch_kept hx hb with ⟨hb', -⟩ | ⟨it, its, -, -, hb'⟩
  · rwa [expiredTimers_eq hb']
  · rwa [expiredTimers_eq hb']

theorem Stepped.mem_canceling (hs : Stepped scheduled q x q')
    (hx : x ≠ .act .finishRead) (hb : q.batch = some b) (hf : q.BatchFlagged) {a : ActiveTimer}
    (ha : a.1 ∉ scheduled) :
    a ∈ q'.cancelingTimers ↔
      a ∈ q.cancelingTimers ∨ x = .act (.cancelInLoop ⟨a.1, a.2⟩) := by
  have hcalling : q.callingExpiredTimers = true := by
    rw [hf, hb]
    rfl
  have hno : ∀ {l : TimerLabel}, (∀ timerId, l ≠ .cancelInLoop timerId) →
      (a ∈ q.cancelingTimers ↔
        a ∈ q.cancelingTimers ∨ ClockedLabel.act l = .act (.cancelInLoop ⟨a.1, a.2⟩)) := by
    intro l hl
    refine ⟨.inl, fun h => h.resolve_right fun heq => ?_⟩
    exact hl _ (ClockedLabel.act.inj heq)
  cases hs with
  | @idle l hl =>
    refine hno ?_
    rintro timerId rfl
    exact hl trivial
  | setClock => simp
  | tick | newTimer | addTimerInLoop | runCallback => exact hno (by simp)
  | @drop _ r u hid hr hu =>
    refine ⟨.inl, fun h => h.resolve_right fun heq => ?_⟩
    cases heq
    obtain ⟨rfl, -⟩ := TimerId.mk.inj hid
    exact ha hr
  | @mark timerId =>
    change a ∈ Insert.insert _ q.cancelingTimers ↔ _
    rw [Finset.mem_insert, or_comm]
    refine or_congr_right ⟨?_, ?_⟩
    · rintro rfl
      rfl
    · intro h
      cases h
      rfl
  | ignore _ hc =>
    rw [hcalling] at hc
    cases hc
  | handleRead hnone =>
    rw [hb] at hnone
    cases hnone
  | finishRead => exact absurd rfl hx

end Batch

theorem Stepped.batchFlagged (hs : Stepped scheduled q x q') (hf : q.BatchFlagged) :
    q'.BatchFlagged := by
  cases hs with
  | idle | setClock | tick | newTimer | addTimerInLoop | drop | mark | ignore => exact hf
  | handleRead => rfl
  | runCallback hb =>
    rw [BatchFlagged, hb] at hf
    exact hf
  | finishRead _ _ hr => rw [BatchFlagged, hr.calling_eq, hr.batch_eq, Option.isSome_none]

end TimerQueue

end Dwater
