import Mathlib.Data.Finset.Image
import Mathlib.Order.Fin.Basic
import Dwater.Net.Timers.TimerQueue

/-! # The two sets of the timer queue

`timers_` and `active_timers_` are two pictures of one set of scheduled Timers. As long as
they are, the assertions of `Insert`, `CancelInLoop` and `GetExpired` hold, and what these
functions return can be written down.
-/

set_option autoImplicit false
namespace Dwater

open Fallible

namespace TimerQueue

def entryAt (g : TimerPtr → Option Timer) (p : TimerPtr) : TimerEntry :=
  toLex (((g p).map Timer.expiration).getD .invalid, p)

def activeAt (g : TimerPtr → Option Timer) (p : TimerPtr) : ActiveTimer :=
  (p, ((g p).map Timer.sequence).getD 0)

variable {g g' : TimerPtr → Option Timer} {p : TimerPtr} {t : Timer}

theorem entryAt_injective : Function.Injective (entryAt g) :=
  fun _ _ h => congrArg (fun e => (ofLex e).2) h

theorem activeAt_injective : Function.Injective (activeAt g) :=
  fun _ _ h => congrArg Prod.fst h

theorem entryAt_eq (h : g p = some t) : entryAt g p = toLex (t.expiration, p) := by
  simp [entryAt, h]

theorem activeAt_eq (h : g p = some t) : activeAt g p = (p, t.sequence) := by
  simp [activeAt, h]

theorem entryAt_congr (h : g' p = g p) : entryAt g' p = entryAt g p := by
  simp [entryAt, h]

theorem activeAt_congr (h : g' p = g p) : activeAt g' p = activeAt g p := by
  simp [activeAt, h]

/-- Both sets hold the Timers of `scheduled`, under their current keys. -/
structure Keyed (q : TimerQueue) (scheduled : Finset TimerPtr) : Prop where
  timers_eq : q.timers = scheduled.image (entryAt q.heap.get)
  active_eq : q.activeTimers = scheduled.image (activeAt q.heap.get)

variable {q q' : TimerQueue} {scheduled : Finset TimerPtr}

theorem Keyed.sameSize (h : q.Keyed scheduled) : q.SameSize := by
  rw [SameSize, h.timers_eq, h.active_eq, Finset.card_image_of_injective _ entryAt_injective,
    Finset.card_image_of_injective _ activeAt_injective]

theorem Keyed.congr (h : q.Keyed scheduled) (ht : q'.timers = q.timers)
    (ha : q'.activeTimers = q.activeTimers)
    (hg : ∀ p ∈ scheduled, q'.heap.get p = q.heap.get p) : q'.Keyed scheduled where
  timers_eq := by
    rw [ht, h.timers_eq]
    exact Finset.image_congr fun p hp => (entryAt_congr (hg p hp)).symm
  active_eq := by
    rw [ha, h.active_eq]
    exact Finset.image_congr fun p hp => (activeAt_congr (hg p hp)).symm

theorem Keyed.mem_timers (h : q.Keyed scheduled) (ht : q.heap.get p = some t) :
    toLex (t.expiration, p) ∈ q.timers ↔ p ∈ scheduled := by
  rw [h.timers_eq, ← entryAt_eq ht, entryAt_injective.mem_finset_image]

theorem Keyed.mem_active (h : q.Keyed scheduled) (ht : q.heap.get p = some t) :
    (p, t.sequence) ∈ q.activeTimers ↔ p ∈ scheduled := by
  rw [h.active_eq, ← activeAt_eq ht, activeAt_injective.mem_finset_image]

theorem Keyed.scheduled_of_active (h : q.Keyed scheduled) {a : ActiveTimer}
    (ha : a ∈ q.activeTimers) : a.1 ∈ scheduled ∧ activeAt q.heap.get a.1 = a := by
  rw [h.active_eq] at ha
  obtain ⟨p, hp, rfl⟩ := Finset.mem_image.mp ha
  exact ⟨hp, rfl⟩

theorem Keyed.scheduled_of_timer (h : q.Keyed scheduled) {e : TimerEntry}
    (he : e ∈ q.timers) : (ofLex e).2 ∈ scheduled ∧ entryAt q.heap.get (ofLex e).2 = e := by
  rw [h.timers_eq] at he
  obtain ⟨p, hp, rfl⟩ := Finset.mem_image.mp he
  exact ⟨hp, rfl⟩

theorem Keyed.ne_max (h : q.Keyed scheduled) (hmax : uintptrMax ∉ scheduled) {e : TimerEntry}
    (he : e ∈ q.timers) : (ofLex e).2 ≠ uintptrMax := by
  intro heq
  exact hmax (heq ▸ (h.scheduled_of_timer he).1)

theorem deref_eq (h : q.heap.get p = some t) (line : ℕ) : q.deref p line = .ok t := by
  simp [deref, h]

theorem delete_eq (h : q.heap.get p = some t) (line : ℕ) :
    q.delete p line = .ok { q with heap := q.heap.delete p } := by
  rw [delete, deref_eq h]
  rfl

def put (q : TimerQueue) (p : TimerPtr) (t : Timer) : TimerQueue :=
  { q with
    timers := Insert.insert (toLex (t.expiration, p)) q.timers
    activeTimers := Insert.insert (p, t.sequence) q.activeTimers }

theorem Keyed.put (h : q.Keyed scheduled) (ht : q.heap.get p = some t) :
    (q.put p t).Keyed (Insert.insert p scheduled) where
  timers_eq := by
    rw [Finset.image_insert, TimerQueue.put, h.timers_eq]
    rw [entryAt_eq ht]
  active_eq := by
    rw [Finset.image_insert, TimerQueue.put, h.active_eq]
    rw [activeAt_eq ht]

theorem Keyed.insert_eq (h : q.Keyed scheduled) (ht : q.heap.get p = some t)
    (hp : p ∉ scheduled) : q.insert p = .ok (q.put p t, t.expiration.precedes q.timers) := by
  have hn : toLex (t.expiration, p) ∉ q.timers := fun hm => hp ((h.mem_timers ht).mp hm)
  have ha : (p, t.sequence) ∉ q.activeTimers := fun hm => hp ((h.mem_active ht).mp hm)
  have hs : (q.put p t).SameSize := (h.put ht).sameSize
  rw [TimerQueue.insert, check_bind_of_true h.sameSize, deref_eq ht]
  change (check _ _ >>= fun _ => check _ _ >>= fun _ => check (q.put p t).SameSize _ >>= _) = _
  rw [check_bind_of_true hn, check_bind_of_true ha, check_bind_of_true hs]
  rfl

def drop (q : TimerQueue) (p : TimerPtr) (t : Timer) : TimerQueue :=
  { q with
    heap := q.heap.delete p
    timers := q.timers.erase (toLex (t.expiration, p))
    activeTimers := q.activeTimers.erase (p, t.sequence) }

theorem drop_cell_eq_some {r : TimerPtr} {x : ℕ × Timer} :
    (q.drop p t).heap.cell r = some x ↔ r ≠ p ∧ q.heap.cell r = some x := by
  change (q.heap.delete p).cell r = _ ↔ _
  rw [Heap.cell_delete]
  by_cases hr : r = p
  · simp [hr]
  · simp [hr]

theorem drop_cell_of_ne {r : TimerPtr} (hr : r ≠ p) :
    (q.drop p t).heap.cell r = q.heap.cell r := by
  change (q.heap.delete p).cell r = _
  rw [Heap.cell_delete, Function.update_of_ne hr]

theorem Keyed.drop (h : q.Keyed scheduled) (ht : q.heap.get p = some t) :
    (q.drop p t).Keyed (scheduled.erase p) := by
  have hg : ∀ r ∈ scheduled.erase p, (q.heap.delete p).get r = q.heap.get r := by
    intro r hr
    rw [Heap.get_delete, Function.update_of_ne (Finset.ne_of_mem_erase hr)]
  constructor
  · rw [TimerQueue.drop, h.timers_eq, ← entryAt_eq ht, ← Finset.image_erase entryAt_injective]
    exact Finset.image_congr fun r hr => (entryAt_congr (hg r hr)).symm
  · rw [TimerQueue.drop, h.active_eq, ← activeAt_eq ht, ← Finset.image_erase activeAt_injective]
    exact Finset.image_congr fun r hr => (activeAt_congr (hg r hr)).symm

theorem Keyed.eraseActive_eq (h : q.Keyed scheduled) (ht : q.heap.get p = some t)
    (hp : p ∈ scheduled) : q.eraseActive (p, t.sequence) = .ok (q.drop p t) := by
  have hm : toLex (t.expiration, p) ∈ q.timers := (h.mem_timers ht).mpr hp
  have hd := delete_eq (q := { q with timers := q.timers.erase (toLex (t.expiration, p)) }) ht 134
  rw [eraseActive, deref_eq ht]
  change (check _ _ >>= fun _ => delete _ p 134 >>= _) = _
  rw [check_bind_of_true hm]
  change (delete { q with timers := q.timers.erase (toLex (t.expiration, p)) } p 134 >>= _) = _
  rw [hd]
  rfl

theorem Keyed.cancelInLoop_cases (h : q.Keyed scheduled)
    (hlive : ∀ p ∈ scheduled, (q.heap.get p).isSome) (timerId : TimerId) :
    (∃ p t, timerId = ⟨p, t.sequence⟩ ∧ p ∈ scheduled ∧ q.heap.get p = some t ∧
      q.cancelInLoop timerId = .ok (q.drop p t)) ∨
    ((timerId.timer, timerId.sequence) ∉ q.activeTimers ∧ q.callingExpiredTimers = true ∧
      q.cancelInLoop timerId = .ok { q with
        cancelingTimers := Insert.insert (timerId.timer, timerId.sequence) q.cancelingTimers }) ∨
    ((timerId.timer, timerId.sequence) ∉ q.activeTimers ∧ q.callingExpiredTimers = false ∧
      q.cancelInLoop timerId = .ok q) := by
  obtain ⟨p, n⟩ := timerId
  rw [cancelInLoop, check_bind_of_true h.sameSize]
  by_cases ha : (p, n) ∈ q.activeTimers
  · obtain ⟨hp, he⟩ := h.scheduled_of_active ha
    obtain ⟨t, ht⟩ := Option.isSome_iff_exists.mp (hlive p hp)
    rw [activeAt_eq ht] at he
    cases he
    refine .inl ⟨p, t, rfl, hp, ht, ?_⟩
    rw [if_pos ha, h.eraseActive_eq ht hp]
    exact check_bind_of_true (h.drop ht).sameSize
  · simp only [if_neg ha]
    cases hc : q.callingExpiredTimers with
    | true =>
      refine .inr (.inl ⟨ha, rfl, ?_⟩)
      exact check_bind_of_true h.sameSize
    | false =>
      refine .inr (.inr ⟨ha, rfl, ?_⟩)
      exact check_bind_of_true h.sameSize

def pointers (entries : List TimerEntry) : List TimerPtr := entries.map fun e => (ofLex e).2

theorem run_eraseExpired {entries : List TimerEntry} : ∀ {q : TimerQueue}
    {scheduled : Finset TimerPtr}, q.activeTimers = scheduled.image (activeAt q.heap.get) →
      (∀ p ∈ scheduled, (q.heap.get p).isSome) → (pointers entries).Nodup →
      (∀ p ∈ pointers entries, p ∈ scheduled) →
      run eraseExpired q entries = .ok { q with
        activeTimers :=
          (scheduled \ (pointers entries).toFinset).image (activeAt q.heap.get) } := by
  induction entries with
  | nil =>
    intro q scheduled ha _ _ _
    simp [pointers, ← ha]
  | cons e entries ih =>
    intro q scheduled ha hlive hnd hmem
    obtain ⟨hnew, hnd⟩ := List.nodup_cons.mp hnd
    have hp : (ofLex e).2 ∈ scheduled := hmem _ List.mem_cons_self
    obtain ⟨t, ht⟩ := Option.isSome_iff_exists.mp (hlive _ hp)
    have hm : ((ofLex e).2, t.sequence) ∈ q.activeTimers := by
      rw [ha, ← activeAt_eq ht]
      exact Finset.mem_image_of_mem _ hp
    have hone : q.eraseExpired e =
        .ok { q with activeTimers := q.activeTimers.erase ((ofLex e).2, t.sequence) } := by
      rw [eraseExpired, deref_eq ht]
      exact check_bind_of_true hm
    have herase : q.activeTimers.erase ((ofLex e).2, t.sequence) =
        (scheduled.erase (ofLex e).2).image (activeAt q.heap.get) := by
      rw [Finset.image_erase activeAt_injective, ha, activeAt_eq ht]
    rw [run_cons_of_ok hone, ih herase]
    · congr 3
      change _ = scheduled \ (List.toFinset ((ofLex e).2 :: pointers entries))
      rw [List.toFinset_cons, Finset.sdiff_insert, Finset.erase_sdiff_comm]
    · exact fun p hp => hlive p (Finset.mem_of_mem_erase hp)
    · exact hnd
    · intro p hp
      refine Finset.mem_erase.mpr ⟨?_, hmem p (List.mem_cons_of_mem _ hp)⟩
      rintro rfl
      exact hnew hp

theorem lt_sentry {e : TimerEntry} {now : Timestamp} (he : (ofLex e).2 ≠ uintptrMax) :
    e < sentry now ↔ (ofLex e).1 ≤ now := by
  have hlt : (ofLex e).2 < uintptrMax := lt_top_iff_ne_top.mpr he
  rw [sentry, Prod.Lex.lt_iff, le_iff_lt_or_eq]
  simp [hlt]

theorem mem_dueEntries {e : TimerEntry} {now : Timestamp} :
    e ∈ q.dueEntries now ↔ e ∈ q.timers ∧ e < sentry now := by
  simp [dueEntries]

theorem Keyed.mem_pointers_due (h : q.Keyed scheduled) {now : Timestamp} :
    p ∈ pointers (q.dueEntries now) ↔ p ∈ scheduled ∧ entryAt q.heap.get p < sentry now := by
  simp only [pointers, List.mem_map, mem_dueEntries]
  constructor
  · rintro ⟨e, ⟨he, hlt⟩, rfl⟩
    obtain ⟨hp, heq⟩ := h.scheduled_of_timer he
    exact ⟨hp, heq ▸ hlt⟩
  · rintro ⟨hp, hlt⟩
    refine ⟨entryAt q.heap.get p, ⟨?_, hlt⟩, rfl⟩
    rw [h.timers_eq]
    exact Finset.mem_image_of_mem _ hp

theorem Keyed.nodup_pointers_due (h : q.Keyed scheduled) (now : Timestamp) :
    (pointers (q.dueEntries now)).Nodup := by
  refine (Finset.sort_nodup _ _).map_on fun e he f hf heq => ?_
  have he' := (h.scheduled_of_timer (mem_dueEntries.mp he).1).2
  have hf' := (h.scheduled_of_timer (mem_dueEntries.mp hf).1).2
  rw [← he', ← hf', heq]

/-- The queue once `GetExpired` has taken the due timers out of both sets. -/
def takeDue (q : TimerQueue) (now : Timestamp) (scheduled : Finset TimerPtr) : TimerQueue :=
  { q with
    timers := q.timers.filter (sentry now ≤ ·)
    activeTimers :=
      (scheduled \ (pointers (q.dueEntries now)).toFinset).image (activeAt q.heap.get) }

theorem Keyed.takeDue (h : q.Keyed scheduled) (now : Timestamp) :
    (q.takeDue now scheduled).Keyed (scheduled \ (pointers (q.dueEntries now)).toFinset) where
  timers_eq := by
    have hset : scheduled \ (pointers (q.dueEntries now)).toFinset =
        scheduled.filter fun p => sentry now ≤ entryAt q.heap.get p := by
      ext p
      simp only [Finset.mem_sdiff, List.mem_toFinset, h.mem_pointers_due, Finset.mem_filter,
        not_and, not_lt]
      exact and_congr_right fun hp => ⟨fun hle => hle hp, fun hle _ => hle⟩
    rw [hset, TimerQueue.takeDue, h.timers_eq, Finset.filter_image]
  active_eq := rfl

theorem Keyed.getExpired_eq (h : q.Keyed scheduled)
    (hlive : ∀ p ∈ scheduled, (q.heap.get p).isSome) (hmax : uintptrMax ∉ scheduled)
    (now : Timestamp) :
    q.getExpired now = .ok (q.takeDue now scheduled, q.dueEntries now) := by
  have hrest : now.precedes (q.timers.filter (sentry now ≤ ·)) = true := by
    rw [Timestamp.precedes_iff]
    intro e he
    obtain ⟨he, hle⟩ := Finset.mem_filter.mp he
    exact lt_of_not_ge fun hge => not_lt_of_ge hle ((lt_sentry (h.ne_max hmax he)).mpr hge)
  have hrun : run eraseExpired { q with timers := q.timers.filter (sentry now ≤ ·) }
      (q.dueEntries now) = .ok (q.takeDue now scheduled) :=
    run_eraseExpired (q := { q with timers := q.timers.filter (sentry now ≤ ·) }) h.active_eq hlive
      (h.nodup_pointers_due now) fun p hp => (h.mem_pointers_due.mp hp).1
  rw [getExpired, check_bind_of_true h.sameSize]
  change (check (now.precedes (q.timers.filter (sentry now ≤ ·)) = true) _ >>= fun _ =>
    run eraseExpired { q with timers := q.timers.filter (sentry now ≤ ·) }
      (q.dueEntries now) >>= _) = _
  rw [check_bind_of_true hrest, hrun]
  exact check_bind_of_true (h.takeDue now).sameSize

end TimerQueue

end Dwater
