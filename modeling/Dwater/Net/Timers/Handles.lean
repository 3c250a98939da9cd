import Dwater.Net.Timers.Steps

/-! # The Timer behind an id

A `TimerId` names a Timer by address and sequence number. Whatever the queue does, the Timer
keeps both until it is deleted, and once it has been added and cancelled it is never scheduled
again.
-/

set_option autoImplicit false
namespace Dwater

open Fallible

/-- What `AddTimer` returns, with the number of the Timer, which no other Timer ever has. -/
@[ext] structure TimerHandle where
  number : ℕ
  timerId : TimerId
  deriving DecidableEq, Repr

namespace TimerQueue

variable {q q' q'' : TimerQueue} {scheduled : Finset TimerPtr} {h : TimerHandle} {n : ℕ}
  {p : TimerPtr} {t : Timer}

def handle (q : TimerQueue) (timer : TimerPtr) : TimerHandle :=
  ⟨q.heap.created, ⟨timer, .ofNat (q.heap.created + 1)⟩⟩

/-- As long as the Timer lives, the handle has its address and its sequence number. -/
structure Refers (q : TimerQueue) (h : TimerHandle) : Prop where
  lt_created : h.number < q.heap.created
  eq_of_cell : ∀ {p t}, q.heap.cell p = some (h.number, t) → h.timerId = ⟨p, t.sequence⟩

/-- The Timer has been created and not yet been added. -/
structure Unadded (q : TimerQueue) (h : TimerHandle) : Prop where
  refers : q.Refers h
  waiting : h.timerId.timer ∈ q.waiting
  live : ∃ t, q.heap.cell h.timerId.timer = some (h.number, t)

/-- The Timer has been added, and may have been deleted since. -/
structure Added (q : TimerQueue) (h : TimerHandle) : Prop where
  refers : q.Refers h
  not_waiting : ∀ {p t}, q.heap.cell p = some (h.number, t) → p ∉ q.waiting

/-- The Timer has been deleted, or `Reset` will delete it. -/
def Doomed (q : TimerQueue) (n : ℕ) : Prop :=
  ∀ p t, q.heap.cell p = some (n, t) →
    p ∈ q.expiredTimers ∧ (p, t.sequence) ∈ q.cancelingTimers

/-- What a step of the queue does not do to a Timer: change its address or its sequence number,
make it wait again, or forget that it has been cancelled. -/
structure Evolves (l : TimerLabel) (q q' : TimerQueue) : Prop where
  created_le : q.heap.created ≤ q'.heap.created
  created_eq : (∀ timer when interval, l ≠ .newTimer timer when interval) →
    q'.heap.created = q.heap.created
  cell_old : ∀ {p n t'}, q'.heap.cell p = some (n, t') → n < q.heap.created →
    ∃ t, q.heap.cell p = some (n, t) ∧ t.sequence = t'.sequence
  waiting_old : ∀ {p n t}, q.heap.cell p = some (n, t) → p ∈ q'.waiting → p ∈ q.waiting
  waiting_kept : ∀ {p}, p ∈ q.waiting → l ≠ .addTimerInLoop p →
    p ∈ q'.waiting ∧ q'.heap.cell p = q.heap.cell p
  doomed_kept : ∀ {n}, n < q.heap.created → q.Doomed n → q'.Doomed n

section Evolves

variable {l : TimerLabel}

theorem Refers.evolves (hr : q.Refers h) (he : Evolves l q q') : q'.Refers h := by
  constructor
  · exact lt_of_lt_of_le hr.lt_created he.created_le
  · intro p t' hc
    obtain ⟨t, hc, hseq⟩ := he.cell_old hc hr.lt_created
    rw [hr.eq_of_cell hc, hseq]

theorem Unadded.evolves (hu : q.Unadded h) (he : Evolves l q q')
    (hl : l ≠ .addTimerInLoop h.timerId.timer) : q'.Unadded h := by
  obtain ⟨t, hc⟩ := hu.live
  obtain ⟨hw, hcell⟩ := he.waiting_kept hu.waiting hl
  exact ⟨hu.refers.evolves he, hw, t, hcell.trans hc⟩

theorem Added.evolves (ha : q.Added h) (he : Evolves l q q') : q'.Added h := by
  constructor
  · exact ha.refers.evolves he
  · intro p t' hc hw
    obtain ⟨t, hc, -⟩ := he.cell_old hc ha.refers.lt_created
    exact ha.not_waiting hc (he.waiting_old hc hw)

theorem Unadded.not_added (hu : q.Unadded h) : ¬ q.Added h := by
  obtain ⟨t, hc⟩ := hu.live
  exact fun ha => ha.not_waiting hc hu.waiting

theorem Unadded.eq_of_timer {h' : TimerHandle} (hu : q.Unadded h) (hu' : q.Unadded h')
    (ht : h.timerId.timer = h'.timerId.timer) : h = h' := by
  obtain ⟨t, hc⟩ := hu.live
  obtain ⟨t', hc'⟩ := hu'.live
  have hid := hu.refers.eq_of_cell hc
  have hid' := hu'.refers.eq_of_cell hc'
  rw [← ht, hc] at hc'
  obtain ⟨hnumber, htimer⟩ := Prod.mk.inj (Option.some.inj hc')
  refine TimerHandle.ext hnumber ?_
  rw [hid, hid', ht, htimer]

end Evolves

/-- The Timers are those of `q`, less some that have been deleted. -/
structure Thins (q q' : TimerQueue) : Prop where
  created_eq : q'.heap.created = q.heap.created
  cell_old : ∀ {p n t'}, q'.heap.cell p = some (n, t') →
    ∃ t, q.heap.cell p = some (n, t) ∧ t.sequence = t'.sequence

theorem Thins.of_eq (hq : q'.heap = q.heap) : q.Thins q' := by
  constructor
  · rw [hq]
  · intro p n t hc
    rw [hq] at hc
    exact ⟨t, hc, rfl⟩

theorem Thins.of_delete (hq : q'.heap = q.heap.delete p) : q.Thins q' := by
  constructor
  · rw [hq, Heap.created_delete]
  · intro r n t hc
    rw [hq, Heap.cell_delete] at hc
    by_cases hr : r = p
    · simp [hr] at hc
    · rw [Function.update_of_ne hr] at hc
      exact ⟨t, hc, rfl⟩

theorem Doomed.thins (hd : q.Doomed n) (ht : q.Thins q')
    (hexpired : q'.expiredTimers = q.expiredTimers)
    (hcanceling : q.cancelingTimers ⊆ q'.cancelingTimers) : q'.Doomed n := by
  intro p t' hc
  obtain ⟨t, hc, hseq⟩ := ht.cell_old hc
  obtain ⟨hp, hm⟩ := hd p t hc
  rw [hexpired, ← hseq]
  exact ⟨hp, hcanceling hm⟩

theorem Thins.evolves {l : TimerLabel} (ht : q.Thins q') (hsub : q'.waiting ⊆ q.waiting)
    (hkept : ∀ {p}, p ∈ q.waiting → l ≠ .addTimerInLoop p →
      p ∈ q'.waiting ∧ q'.heap.cell p = q.heap.cell p)
    (hd : ∀ {n}, q.Doomed n → q'.Doomed n) : Evolves l q q' where
  created_le := ht.created_eq.ge
  created_eq _ := ht.created_eq
  cell_old hc _ := ht.cell_old hc
  waiting_old _ hw := hsub hw
  waiting_kept := hkept
  doomed_kept _ := hd

theorem evolves_of_eq {l : TimerLabel} (hheap : q'.heap = q.heap)
    (hwaiting : q'.waiting = q.waiting) (hexpired : q'.expiredTimers = q.expiredTimers)
    (hcanceling : q.cancelingTimers ⊆ q'.cancelingTimers) : Evolves l q q' := by
  refine (Thins.of_eq hheap).evolves hwaiting.subset ?_ ?_
  · intro p hp _
    rw [hheap, hwaiting]
    exact ⟨hp, rfl⟩
  · exact fun hd => hd.thins (.of_eq hheap) hexpired hcanceling

theorem evolves_newTimer (hinv : q.Inv scheduled) (timer : TimerPtr) (when : Timestamp)
    (interval : Seconds) (hfree : q.heap.get timer = none) (v : Timer) :
    Evolves (.newTimer timer when interval) q
      { q with heap := q.heap.new timer v, waiting := Insert.insert timer q.waiting } := by
  have hcell := Heap.cell_new hfree v
  have hnone := Heap.get_eq_none.mp hfree
  have hold : ∀ {p n t'}, (q.heap.new timer v).cell p = some (n, t') → n < q.heap.created →
      q.heap.cell p = some (n, t') := by
    intro p n t' hc hn
    rw [hcell] at hc
    by_cases hp : p = timer
    · subst hp
      rw [Function.update_self] at hc
      cases hc
      exact absurd hn (lt_irrefl _)
    · rwa [Function.update_of_ne hp] at hc
  constructor
  · rw [Heap.created_new hfree]
    exact Nat.le_succ _
  · exact fun hl => absurd rfl (hl timer when interval)
  · exact fun hc hn => ⟨_, hold hc hn, rfl⟩
  · intro p n t hc hw
    rcases Finset.mem_insert.mp hw with rfl | hw
    · rw [hnone] at hc
      cases hc
    · exact hw
  · intro p hp _
    refine ⟨Finset.mem_insert_of_mem hp, ?_⟩
    refine Heap.cell_new_of_ne hfree ?_ v
    rintro rfl
    obtain ⟨t, ht⟩ := hinv.owned.get_waiting hp
    rw [hfree] at ht
    cases ht
  · intro n hn hd p t hc
    exact hd p t (hold hc hn)

theorem evolves_addTimerInLoop (fd : Timerfd) :
    Evolves (.addTimerInLoop p) q
      { { q with waiting := q.waiting.erase p }.put p t with timerfd := fd } := by
  have hthins : q.Thins
      { { q with waiting := q.waiting.erase p }.put p t with timerfd := fd } := .of_eq rfl
  refine hthins.evolves (Finset.erase_subset p q.waiting) ?_ ?_
  · intro r hr hl
    refine ⟨Finset.mem_erase.mpr ⟨?_, hr⟩, rfl⟩
    rintro rfl
    exact hl rfl
  · exact fun hd => hd.thins hthins rfl subset_rfl

theorem evolves_drop {l : TimerLabel} (hinv : q.Inv scheduled) (hp : p ∈ scheduled) :
    Evolves l q (q.drop p t) := by
  have hthins : q.Thins (q.drop p t) := .of_delete rfl
  refine hthins.evolves subset_rfl ?_ ?_
  · intro r hr _
    refine ⟨hr, drop_cell_of_ne ?_⟩
    rintro rfl
    exact (hinv.owned.waiting_not r hr).1 hp
  · exact fun hd => hd.thins hthins rfl subset_rfl

/-- While no batch is being processed, a Timer that is doomed is deleted. -/
theorem Doomed.of_batch_none (hd : q.Doomed n) (hb : q.batch = none) :
    q.heap.cell p ≠ some (n, t) := by
  intro hc
  have hmem := (hd p t hc).1
  simp [expiredTimers, hb] at hmem

theorem evolves_entered {l : TimerLabel} (hb : q.batch = none) {readAt : Timestamp} :
    Evolves l q (q.entered readAt scheduled) := by
  have hthins : q.Thins (q.entered readAt scheduled) := .of_eq rfl
  refine hthins.evolves subset_rfl (fun hr _ => ⟨hr, rfl⟩) ?_
  intro n hd p t hc
  exact absurd hc (hd.of_batch_none hb)

section FinishRead

variable {b : ExpiredBatch}

theorem Rescheduled.thins (hr : q.Rescheduled b q') (hinv : q.Inv scheduled)
    (hb : q.batch = some b) : q.Thins q' := by
  constructor
  · exact hr.created_eq
  · intro p n t' hc
    rcases hr.cell_old hinv hb hc with ⟨-, hold⟩ | ⟨t, -, hold, -, -, rfl⟩
    · exact ⟨t', hold, rfl⟩
    · exact ⟨t, hold, (Timer.restart_sequence t b.now).symm⟩

theorem Doomed.finishRead (hd : q.Doomed n) (hinv : q.Inv scheduled) (hb : q.batch = some b)
    (hr : q.Rescheduled b q') : q'.Doomed n := by
  intro p t' hc'
  exfalso
  rcases hr.cell_old hinv hb hc' with ⟨hp, hc⟩ | ⟨t, hp, hc, -, hnot, -⟩
  · exact hp (expiredTimers_eq hb ▸ (hd p t' hc).1)
  · exact hnot (hd p t hc).2

theorem evolves_finishRead {l : TimerLabel} (hinv : q.Inv scheduled) (hb : q.batch = some b)
    (hr : q.Rescheduled b q') : Evolves l q q' := by
  refine (hr.thins hinv hb).evolves hr.waiting_eq.subset ?_ ?_
  · intro p hp _
    rw [hr.waiting_eq]
    refine ⟨hp, hr.cell_other p ?_⟩
    rw [← expiredTimers_eq hb]
    exact (hinv.owned.waiting_not p hp).2
  · exact fun hd => hd.finishRead hinv hb hr

end FinishRead

theorem step_evolves {l : TimerLabel} (hinv : q.Inv scheduled) (hq : q.step l = .ok q') :
    Evolves l q q' := by
  cases hinv.step_stepped hq with
  | idle | tick | ignore => exact evolves_of_eq rfl rfl rfl subset_rfl
  | newTimer hfree => exact evolves_newTimer hinv _ _ _ hfree.1 _
  | addTimerInLoop fd => exact evolves_addTimerInLoop fd
  | drop _ hp => exact evolves_drop hinv hp
  | mark => exact evolves_of_eq rfl rfl rfl (Finset.subset_insert _ _)
  | handleRead hb => exact evolves_entered hb
  | runCallback hb => exact evolves_of_eq rfl rfl (by simp [expiredTimers, hb]) subset_rfl
  | finishRead hb _ hr => exact evolves_finishRead hinv hb hr

theorem step_batchFlagged {l : TimerLabel} (hinv : q.Inv scheduled) (hf : q.BatchFlagged)
    (hq : q.step l = .ok q') : q'.BatchFlagged := (hinv.step_stepped hq).batchFlagged hf

theorem evolves_clocked {x : ClockedLabel} (hinv : q.Inv scheduled)
    (hq : q.clockedStep x = .ok q') : ∃ l, Evolves l q q' := by
  cases x with
  | setClock now =>
    cases hq
    exact ⟨.tick now, evolves_of_eq rfl rfl rfl subset_rfl⟩
  | act l => exact ⟨l, step_evolves hinv hq⟩

theorem cell_newTimer {timer : TimerPtr} {when : Timestamp}
    {interval : Seconds} (hfree : q.heap.get timer = none ∧ timer ≠ uintptrMax)
    (hq : q.step (.newTimer timer when interval) = .ok q') (hc : q'.heap.cell p = some (n, t)) :
    n < q.heap.created ∨ ⟨n, ⟨p, t.sequence⟩⟩ = q.handle timer := by
  simp only [step, if_pos hfree] at hq
  cases hq
  change (q.heap.new timer _).cell p = _ at hc
  rw [Heap.cell_new hfree.1] at hc
  by_cases hp : p = timer
  · subst hp
    rw [Function.update_self] at hc
    cases hc
    exact .inr rfl
  · rw [Function.update_of_ne hp] at hc
    exact .inl (q.heap.sound.cell_lt hc)

theorem unadded_newTimer {timer : TimerPtr} {when : Timestamp}
    {interval : Seconds} (hfree : q.heap.get timer = none ∧ timer ≠ uintptrMax)
    (hq : q.step (.newTimer timer when interval) = .ok q') : q'.Unadded (q.handle timer) := by
  simp only [step, if_pos hfree] at hq
  cases hq
  have hcell := Heap.cell_new hfree.1 (Timer.new when interval (.ofNat (q.heap.created + 1)))
  constructor
  · constructor
    · change q.heap.created < _
      rw [Heap.created_new hfree.1]
      exact Nat.lt_succ_self _
    · intro p t hc
      change (q.heap.new timer _).cell p = some (q.heap.created, t) at hc
      rw [hcell] at hc
      by_cases hp : p = timer
      · subst hp
        rw [Function.update_self] at hc
        cases hc
        rfl
      · rw [Function.update_of_ne hp] at hc
        exact absurd (q.heap.sound.cell_lt hc) (lt_irrefl _)
  · exact Finset.mem_insert_self timer q.waiting
  · refine ⟨Timer.new when interval (.ofNat (q.heap.created + 1)), ?_⟩
    change (q.heap.new timer _).cell timer = _
    rw [hcell, Function.update_self]
    rfl

theorem Unadded.addTimerInLoop (hu : q.Unadded h) (hinv : q.Inv scheduled)
    (hq : q.step (.addTimerInLoop h.timerId.timer) = .ok q') : q'.Added h := by
  refine ⟨hu.refers.evolves (step_evolves hinv hq), ?_⟩
  intro p t hc hw
  have hid := (hu.refers.evolves (step_evolves hinv hq)).eq_of_cell hc
  simp only [step, if_pos hu.waiting] at hq
  obtain ⟨t', ht'⟩ := hinv.owned.get_waiting hu.waiting
  rw [hinv.owned.addTimerInLoop_eq hu.waiting ht'] at hq
  have hwaiting : q'.waiting = q.waiting.erase h.timerId.timer := by
    split at hq
    · cases hq
      rfl
    · cases hq
      rfl
  rw [hwaiting, hid] at hw
  exact Finset.notMem_erase p q.waiting hw

/-- `CancelInLoop` deletes a Timer that has been added, or marks it for `Reset`. -/
theorem Added.cancelInLoop (ha : q.Added h) (hinv : q.Inv scheduled) (hf : q.BatchFlagged)
    (hq : q.cancelInLoop h.timerId = .ok q') : q'.Doomed h.number := by
  intro p t' hc'
  obtain ⟨t, hc, hseq⟩ := (step_evolves (l := .cancelInLoop h.timerId) hinv hq).cell_old hc'
    ha.refers.lt_created
  have hid := ha.refers.eq_of_cell hc
  have hget : q.heap.get p = some t := Heap.get_eq_some.mpr ⟨_, hc⟩
  obtain ⟨r, u, hru, -, -, heq⟩ | ⟨hnot, -, heq⟩ | ⟨hnot, hcalling, heq⟩ :=
    hinv.owned.keyed.cancelInLoop_cases hinv.owned.live h.timerId
  · -- the Timer was scheduled and is gone
    cases heq.symm.trans hq
    rw [hid] at hru
    obtain ⟨rfl, -⟩ := TimerId.mk.inj hru
    exact absurd rfl (drop_cell_eq_some.mp hc').1
  · cases heq.symm.trans hq
    rw [hid] at hnot
    have hplace := (hinv.owned.live_iff p).mp (by simp [hget])
    have hnsch : p ∉ scheduled := fun hs => hnot ((hinv.owned.keyed.mem_active hget).mpr hs)
    refine ⟨(hplace.resolve_left hnsch).resolve_left (ha.not_waiting hc), ?_⟩
    rw [hid, ← hseq]
    exact Finset.mem_insert_self _ _
  · rw [hid] at hnot
    have hplace := (hinv.owned.live_iff p).mp (by simp [hget])
    have hnsch : p ∉ scheduled := fun hs => hnot ((hinv.owned.keyed.mem_active hget).mpr hs)
    have hexp := (hplace.resolve_left hnsch).resolve_left (ha.not_waiting hc)
    rw [BatchFlagged, hcalling] at hf
    have hnone : q.batch = none := by simpa using hf.symm
    simp [expiredTimers, hnone] at hexp

theorem Doomed.not_scheduled (hd : q.Doomed n) (hinv : q.Inv scheduled) :
    ¬ q.At n .scheduled := by
  rintro ⟨p, t, hc, he, -⟩
  have hp := (hinv.owned.keyed.mem_timers (Heap.get_eq_some.mpr ⟨n, hc⟩)).mp he
  exact hinv.owned.expired_not p (hd p t hc).1 hp

end TimerQueue

end Dwater
