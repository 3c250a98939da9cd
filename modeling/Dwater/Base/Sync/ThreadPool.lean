import Dwater.Base.Types
import Dwater.Lib.CondVar

/-! # The thread pool

Producers give tasks to a queue, which may be bounded, and the worker threads take them out. Both
wait only while the pool is running, so that `Stop` sets everybody free. A thread holds
the mutex from where it gets it to where it waits or returns; these parts are the steps of the
system. A step comes with the threads that its notification wakes.
-/

set_option autoImplicit false
namespace Dwater

open Fallible

variable {τ α : Type} [DecidableEq τ]

/-- A started `ThreadPool`, with the task of the `Run` that a thread is in, and with the tasks that
have been accepted, taken and run by the caller itself. -/
structure ThreadPool (τ α : Type) where
  threads : List τ
  maxQueueSize : ℕ
  running : Bool
  queue : List α
  notEmpty : CondVar τ
  notFull : CondVar τ
  argument : τ → Option α
  accepted : List α
  taken : List α
  executed : List α

namespace ThreadPool

def start (threads : List τ) (maxQueueSize : ℕ) : ThreadPool τ α :=
  { threads, maxQueueSize, running := true, queue := [], notEmpty := .new, notFull := .new,
    argument := fun _ => none, accepted := [], taken := [], executed := [] }

def isFull (p : ThreadPool τ α) : Prop := p.maxQueueSize > 0 ∧ p.queue.length ≥ p.maxQueueSize

instance (p : ThreadPool τ α) : Decidable p.isFull := inferInstanceAs (Decidable (_ ∧ _))

/-- `Run` under the mutex, from the condition of its loop to the next `Wait` or to the end. -/
def runLocked (p : ThreadPool τ α) (t : τ) (task : α) (woken : Multiset τ) :
    Except Fault (ThreadPool τ α) :=
  if p.isFull ∧ p.running then
    .ok { p with
      notFull := p.notFull.wait t
      argument := Function.update p.argument t (some task) }
  else if ¬ p.running then .ok p
  else do
    check (¬ p.isFull) (.assertion .thread_pool_cc 76)
    return { p with
      queue := p.queue ++ [task]
      accepted := p.accepted ++ [task]
      notEmpty := p.notEmpty.notify woken }

/-- `Run`, up to its first `Wait`; without worker threads the caller runs the task. -/
def run (p : ThreadPool τ α) (t : τ) (task : α) (woken : Multiset τ) :
    Except Fault (ThreadPool τ α) :=
  if p.threads = [] then .ok { p with executed := p.executed ++ [task] }
  else p.runLocked t task woken

/-- `Take`, from the condition of its loop to the next `Wait` or to the end. -/
def take (p : ThreadPool τ α) (t : τ) (woken : Multiset τ) : ThreadPool τ α :=
  match p.queue with
  | [] => if p.running then { p with notEmpty := p.notEmpty.wait t } else p
  | task :: rest =>
    { p with
      queue := rest
      taken := p.taken ++ [task]
      notFull := if p.maxQueueSize > 0 then p.notFull.notify woken else p.notFull }

def stop (p : ThreadPool τ α) : ThreadPool τ α :=
  { p with
    running := false
    notEmpty := p.notEmpty.notifyAll
    notFull := p.notFull.notifyAll }

inductive Label (τ α : Type)
  /-- the thread calls `Run` and gets the mutex -/
  | run (t : τ) (task : α) (woken : Multiset τ)
  /-- the worker thread calls `Take` and gets the mutex -/
  | take (t : τ) (woken : Multiset τ)
  /-- a thread that waited for room gets the mutex back -/
  | resumeRun (t : τ) (woken : Multiset τ)
  /-- a worker that waited for a task gets the mutex back -/
  | resumeTake (t : τ) (woken : Multiset τ)
  /-- a thread that waits for room wakes up by itself -/
  | wakeRun (t : τ)
  /-- a worker that waits for a task wakes up by itself -/
  | wakeTake (t : τ)
  /-- some thread stops the pool -/
  | stop

def Idle (p : ThreadPool τ α) (t : τ) : Prop := t ∉ p.notEmpty.threads ∧ t ∉ p.notFull.threads

instance (p : ThreadPool τ α) (t : τ) : Decidable (p.Idle t) :=
  inferInstanceAs (Decidable (_ ∧ _))

/-- One step; a label that is not possible changes nothing. -/
def step (p : ThreadPool τ α) : Label τ α → Except Fault (ThreadPool τ α)
  | .run t task woken =>
    if p.Idle t ∧ p.notEmpty.Wakes woken then p.run t task woken else .ok p
  | .take t woken =>
    .ok (if t ∈ p.threads ∧ p.Idle t ∧ p.notFull.Wakes woken then p.take t woken else p)
  | .resumeRun t woken =>
    match p.argument t with
    | some task =>
      if p.notFull.Resumable t ∧ p.notEmpty.Wakes woken then
        { p with notFull := p.notFull.resume t }.runLocked t task woken
      else .ok p
    | none => .ok p
  | .resumeTake t woken =>
    .ok (if p.notEmpty.Resumable t ∧ p.notFull.Wakes woken then
      { p with notEmpty := p.notEmpty.resume t }.take t woken
    else p)
  | .wakeRun t =>
    .ok (if t ∈ p.notFull.waiting then { p with notFull := p.notFull.wakeUp t } else p)
  | .wakeTake t =>
    .ok (if t ∈ p.notEmpty.waiting then { p with notEmpty := p.notEmpty.wakeUp t } else p)
  | .stop => .ok p.stop

/-- The tasks are in a line. While the pool is running, a worker has been notified for each of
`tasks` tasks as long as a worker waits, and a producer for each of `free` places as long as a
producer waits; afterwards nobody waits. No worker is in its condition variable twice. -/
structure Ready (maxSize : ℕ) (p : ThreadPool τ α) (free tasks : ℕ) : Prop where
  max_eq : p.maxQueueSize = maxSize
  threads_ne : p.threads ≠ []
  fifo : p.accepted = p.taken ++ p.queue
  length_le : 0 < maxSize → p.queue.length ≤ maxSize
  workers : p.running = true → p.notEmpty.Covers tasks
  producers : p.running = true → 0 < maxSize → p.notFull.Covers free
  unbounded : maxSize = 0 → p.notFull.waiting = 0
  stopped : p.running = false → p.notEmpty.waiting = 0 ∧ p.notFull.waiting = 0
  distinct : p.notEmpty.threads.Nodup
  known : ∀ t ∈ p.notEmpty.threads, t ∈ p.threads

def Inv (maxSize : ℕ) (p : ThreadPool τ α) : Prop :=
  p.Ready maxSize (maxSize - p.queue.length) p.queue.length

variable {p : ThreadPool τ α} {maxSize free tasks : ℕ} {t : τ} {task : α} {woken : Multiset τ}

omit [DecidableEq τ] in
theorem start_inv {threads : List τ} (h : threads ≠ []) :
    (start threads maxSize : ThreadPool τ α).Inv maxSize where
  max_eq := rfl
  threads_ne := h
  fifo := rfl
  length_le _ := Nat.zero_le _
  workers _ := CondVar.covers_new
  producers _ _ := CondVar.covers_new
  unbounded _ := rfl
  stopped _ := ⟨rfl, rfl⟩
  distinct := Multiset.nodup_zero
  known _ ht := absurd ht (Multiset.notMem_zero _)

omit [DecidableEq τ] in
theorem Ready.mono (h : p.Ready maxSize free tasks) {free' tasks' : ℕ} (hf : free' ≤ free)
    (ht : tasks' ≤ tasks) : p.Ready maxSize free' tasks' :=
  { h with
    workers := fun hr => (h.workers hr).mono ht
    producers := fun hr hm => (h.producers hr hm).mono hf }

omit [DecidableEq τ] in
/-- A producer waits only when there is no room. -/
theorem Ready.waitFull (h : p.Ready maxSize free tasks) (hm : maxSize ≠ 0)
    (hr : p.running = true) (argument : τ → Option α) :
    ({ p with notFull := p.notFull.wait t, argument := argument } : ThreadPool τ α).Ready
      maxSize 0 tasks where
  max_eq := h.max_eq
  threads_ne := h.threads_ne
  fifo := h.fifo
  length_le := h.length_le
  workers := h.workers
  producers _ _ := CondVar.covers_zero
  unbounded hzero := absurd hzero hm
  stopped hs := by
    rw [hr] at hs
    cases hs
  distinct := h.distinct
  known := h.known

omit [DecidableEq τ] in
theorem Ready.of_stopped (h : p.Ready maxSize free tasks) (hr : p.running = false)
    (free' tasks' : ℕ) : p.Ready maxSize free' tasks' :=
  { h with
    workers := fun _ => CondVar.covers_of_waiting (h.stopped hr).1
    producers := fun _ _ => CondVar.covers_of_waiting (h.stopped hr).2 }

/-- A thread that goes on with `Run` may find one notified producer less than there are free
places. -/
theorem runLocked_inv
    (h : p.Ready maxSize (maxSize - p.queue.length - 1) p.queue.length)
    (hw : p.notEmpty.Wakes woken) : Yields (p.runLocked t task woken) (Inv maxSize) := by
  unfold runLocked
  split_ifs with hwait hstop
  · obtain ⟨hfull, hr⟩ := hwait
    rw [isFull, h.max_eq] at hfull
    have hzero : maxSize - p.queue.length = 0 := by omega
    refine yields_ok.mpr ?_
    unfold Inv
    simp only [hzero]
    exact h.waitFull (by omega) hr _
  · have hroom : ¬ p.isFull := fun hfull => hwait ⟨hfull, hstop⟩
    rw [check_bind_of_true hroom, yields_pure]
    rw [isFull, h.max_eq] at hroom
    unfold Inv
    simp only [List.length_append, List.length_singleton, Nat.sub_add_eq]
    exact
      { max_eq := h.max_eq
        threads_ne := h.threads_ne
        fifo := by simp [h.fifo]
        length_le := by
          intro hm
          simp only [List.length_append, List.length_singleton]
          omega
        workers := fun hr => (h.workers hr).notify hw
        producers := h.producers
        unbounded := h.unbounded
        stopped := fun hs => by simp [hstop] at hs
        distinct := by
          simp only [CondVar.threads_notify hw]
          exact h.distinct
        known := by
          simp only [CondVar.threads_notify hw]
          exact h.known }
  · exact yields_ok.mpr (h.of_stopped (Bool.eq_false_of_not_eq_true hstop) _ _)

/-- A worker that goes on with `Take` may find one notified worker less than there are
tasks. -/
theorem take_inv (h : p.Ready maxSize (maxSize - p.queue.length) (p.queue.length - 1))
    (ht : t ∈ p.threads) (hidle : t ∉ p.notEmpty.threads) (hw : p.notFull.Wakes woken) :
    (p.take t woken).Inv maxSize := by
  unfold take
  split
  · next hempty =>
    split
    · next hr =>
      have hzero : p.queue.length = 0 := by simp [hempty]
      unfold Inv
      simp only [hzero]
      rw [hzero] at h
      exact
        { h with
          workers := fun _ => CondVar.covers_zero
          stopped := fun hs => by simp [hr] at hs
          distinct := by
            simp only [CondVar.threads_wait]
            exact Multiset.nodup_cons.mpr ⟨hidle, h.distinct⟩
          known := by
            simp only [CondVar.threads_wait, Multiset.mem_cons]
            rintro w (rfl | hmem)
            · exact ht
            · exact h.known w hmem }
    · next hr => exact h.of_stopped (Bool.eq_false_of_not_eq_true hr) _ _
  · next task rest hcons =>
    have hlen : p.queue.length = rest.length + 1 := by simp [hcons]
    have hfifo : p.accepted = p.taken ++ [task] ++ rest := by simp [h.fifo, hcons]
    have hle : 0 < maxSize → rest.length + 1 ≤ maxSize := fun hm => hlen ▸ h.length_le hm
    rw [hlen] at h
    unfold Inv
    simp only [h.max_eq]
    exact
      { max_eq := rfl
        threads_ne := h.threads_ne
        fifo := hfifo
        length_le := fun hm => Nat.le_of_succ_le (hle hm)
        workers := h.workers
        producers := by
          intro hr hm
          have hroom := hle hm
          rw [if_pos hm]
          refine ((h.producers hr hm).notify hw).mono ?_
          omega
        unbounded := by
          intro hm
          rw [if_neg (by omega)]
          exact h.unbounded hm
        stopped := by
          intro hs
          obtain ⟨hworkers, hproducers⟩ := h.stopped hs
          refine ⟨hworkers, ?_⟩
          split
          · exact CondVar.waiting_notify_of_zero hproducers
          · exact hproducers
        distinct := h.distinct
        known := h.known }

omit [DecidableEq τ] in
theorem stop_inv (h : p.Inv maxSize) : p.stop.Inv maxSize :=
  { h with
    workers := fun hs => by cases hs
    producers := fun hs => by cases hs
    unbounded := fun _ => rfl
    stopped := fun _ => ⟨rfl, rfl⟩
    distinct := by
      simp only [stop, CondVar.threads_notifyAll]
      exact h.distinct
    known := by
      simp only [stop, CondVar.threads_notifyAll]
      exact h.known }

theorem Ready.resumeFull (h : p.Ready maxSize free tasks) :
    ({ p with notFull := p.notFull.resume t } : ThreadPool τ α).Ready maxSize (free - 1) tasks :=
  { h with
    producers := fun hr hm => (h.producers hr hm).resume
    unbounded := fun hm => CondVar.waiting_resume.trans (h.unbounded hm)
    stopped := fun hs => ⟨(h.stopped hs).1, CondVar.waiting_resume.trans (h.stopped hs).2⟩ }

theorem Ready.resumeEmpty (h : p.Ready maxSize free tasks) (ht : p.notEmpty.Resumable t) :
    ({ p with notEmpty := p.notEmpty.resume t } : ThreadPool τ α).Ready maxSize free (tasks - 1) ∧
      t ∉ (p.notEmpty.resume t).threads ∧ t ∈ p.threads := by
  have hthreads := CondVar.threads_resume ht
  have hdistinct := h.distinct
  rw [← hthreads, Multiset.nodup_cons] at hdistinct
  have hknown : ∀ w ∈ (p.notEmpty.resume t).threads, w ∈ p.threads := by
    intro w hw
    exact h.known w (hthreads ▸ Multiset.mem_cons_of_mem hw)
  refine ⟨?_, hdistinct.1, h.known t (hthreads ▸ Multiset.mem_cons_self _ _)⟩
  exact
    { h with
      workers := fun hr => (h.workers hr).resume
      stopped := fun hs => ⟨CondVar.waiting_resume.trans (h.stopped hs).1, (h.stopped hs).2⟩
      distinct := hdistinct.2
      known := hknown }

theorem Inv.wakeFull (h : p.Inv maxSize) :
    ({ p with notFull := p.notFull.wakeUp t } : ThreadPool τ α).Inv maxSize :=
  { h with
    producers := fun hr hm => (h.producers hr hm).wakeUp
    unbounded := fun hm => CondVar.waiting_wakeUp_of_zero (h.unbounded hm)
    stopped := fun hs => ⟨(h.stopped hs).1, CondVar.waiting_wakeUp_of_zero (h.stopped hs).2⟩ }

theorem Inv.wakeEmpty (h : p.Inv maxSize) (ht : t ∈ p.notEmpty.waiting) :
    ({ p with notEmpty := p.notEmpty.wakeUp t } : ThreadPool τ α).Inv maxSize :=
  { h with
    workers := fun hr => (h.workers hr).wakeUp
    stopped := fun hs => ⟨CondVar.waiting_wakeUp_of_zero (h.stopped hs).1, (h.stopped hs).2⟩
    distinct := by
      simp only [CondVar.threads_wakeUp ht]
      exact h.distinct
    known := by
      simp only [CondVar.threads_wakeUp ht]
      exact h.known }

theorem Inv.step_inv (h : p.Inv maxSize) (label : Label τ α) :
    Yields (p.step label) (Inv maxSize) := by
  cases label with
  | run t task woken =>
    simp only [step]
    split
    · next hstep =>
      rw [run, if_neg h.threads_ne]
      exact runLocked_inv (Ready.mono h (Nat.sub_le _ _) le_rfl) hstep.2
    · exact yields_ok.mpr h
  | take t woken =>
    refine yields_ok.mpr ?_
    split
    · next hstep =>
      obtain ⟨ht, hidle, hw⟩ := hstep
      exact take_inv (Ready.mono h le_rfl (Nat.sub_le _ _)) ht hidle.1 hw
    · exact h
  | resumeRun t woken =>
    simp only [step]
    split
    · split
      · next hstep => exact runLocked_inv (Ready.resumeFull h) hstep.2
      · exact yields_ok.mpr h
    · exact yields_ok.mpr h
  | resumeTake t woken =>
    refine yields_ok.mpr ?_
    split
    · next hstep =>
      obtain ⟨hready, hidle, ht⟩ := Ready.resumeEmpty h hstep.1
      exact take_inv hready ht hidle hstep.2
    · exact h
  | wakeRun t =>
    refine yields_ok.mpr ?_
    split
    · exact h.wakeFull
    · exact h
  | wakeTake t =>
    refine yields_ok.mpr ?_
    split
    · next ht => exact h.wakeEmpty ht
    · exact h
  | stop => exact yields_ok.mpr (stop_inv h)

/-- The queue is bounded, tasks are taken in the order in which they were accepted, and no task
or place is left for which somebody waits while nobody has been notified. -/
structure Disciplined (maxSize : ℕ) (p : ThreadPool τ α) : Prop where
  bounded : 0 < maxSize → p.queue.length ≤ maxSize
  fifo : p.taken <+: p.accepted
  workers : p.running = true → p.queue ≠ [] → ¬ ∀ t ∈ p.threads, t ∈ p.notEmpty.waiting
  producers : p.running = true → ¬ p.isFull → p.notFull.waiting ≠ 0 → p.notFull.notified ≠ 0
  stopped : p.running = false → p.notEmpty.waiting = 0 ∧ p.notFull.waiting = 0

omit [DecidableEq τ] in
theorem Inv.disciplined (h : p.Inv maxSize) : p.Disciplined maxSize where
  bounded := h.length_le
  fifo := ⟨p.queue, h.fifo.symm⟩
  workers := by
    intro hr hne hall
    have hwaiting : p.notEmpty.waiting ≠ 0 := by
      obtain ⟨t, ht⟩ := List.exists_mem_of_ne_nil p.threads h.threads_ne
      rintro hzero
      exact Multiset.notMem_zero t (hzero ▸ hall t ht)
    have hnotified := h.workers hr hwaiting
    have hpos : 0 < p.notEmpty.notified.card :=
      (List.length_pos_iff.mpr hne).trans_le hnotified
    obtain ⟨t, ht⟩ := Multiset.card_pos_iff_exists_mem.mp hpos
    have hmem : t ∈ p.notEmpty.threads := by simp [CondVar.threads, ht]
    exact CondVar.notMem_waiting h.distinct ht (hall t (h.known t hmem))
  producers := by
    intro hr hroom hne
    rw [isFull, h.max_eq] at hroom
    rcases Nat.eq_zero_or_pos maxSize with hm | hm
    · exact absurd (h.unbounded hm) hne
    · have hcovers := h.producers hr hm hne
      rw [← Multiset.card_pos]
      omega
  stopped := h.stopped

end ThreadPool

/-- Whatever the threads do after `Start` has returned, the assertions hold and the pool is
disciplined. -/
theorem thread_pool_disciplined {threads : List τ} (h : threads ≠ []) (maxQueueSize : ℕ)
    (labels : List (ThreadPool.Label τ α)) :
    Yields (Fallible.run ThreadPool.step (.start threads maxQueueSize) labels)
      fun p => p.Disciplined maxQueueSize := by
  refine (run_invariant (C := fun _ _ => True) (fun p label hp _ => hp.step_inv label)
    (ThreadPool.start_inv h) (along_of_forall (fun _ _ => trivial) _ labels)).mono ?_
  exact fun p hp => hp.disciplined

/-- A producer that finds the queue full waits until the worker has taken a task. -/
theorem thread_pool_disciplined_full_queue :
    Yields (Fallible.run ThreadPool.step (.start [0] 1)
      [.run 1 'a' 0, .run 1 'b' 0, .take 0 {1}, .resumeRun 1 0])
      fun p : ThreadPool ℕ Char => p.Disciplined 1 :=
  thread_pool_disciplined (by decide) 1 _

end Dwater
