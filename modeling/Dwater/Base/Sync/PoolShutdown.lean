import Mathlib.Algebra.BigOperators.Group.Finset.Basic
import Dwater.Base.Sync.ThreadPool

/-! # Stopping the thread pool

The worker threads with the loop of `RunInThread` around `Take`, the callers of `Run`, which may be
tasks of the pool themselves, and one `Stop` with its joins. An accepted task is run once, is being
run, or stays in the queue; and after `Stop` no thread is stuck, so that the joins return.
-/

set_option autoImplicit false
namespace Dwater

open Fallible

variable {τ α : Type} [DecidableEq τ]

/-- Where a worker thread is in `RunInThread`. -/
inductive WorkerPhase (α : Type)

  /-- at the condition of the loop -/
  | loop

  /-- before `Take` gets the mutex -/
  | take

  /-- in the `Wait` of `Take` -/
  | waiting

  /-- `Take` has returned; the task is empty when the pool was stopped meanwhile -/
  | task (x : Option α)

  | finished

def WorkerPhase.held : WorkerPhase α → Multiset α
  | task (some x) => {x}
  | task none | loop | take | waiting | finished => 0

/-- How many steps the worker has to make when the pool has been stopped. -/
def WorkerPhase.rank : WorkerPhase α → ℕ
  | finished => 0
  | loop => 1
  | task _ => 2
  | take | waiting => 3

/-- A started pool with its worker threads, the tasks they have finished, and the threads that
`Stop` has still to join. -/
structure PoolSystem (τ α : Type) where
  pool : ThreadPool τ α
  phase : τ → WorkerPhase α
  finished : List α
  toJoin : Option (List τ)

inductive PoolLabel (τ α : Type)

  /-- A thread calls `Run`, is woken in it, or goes on with it. -/
  | run (t : τ) (task : α) (woken : Multiset τ)
  | wakeRun (t : τ)
  | resumeRun (t : τ) (woken : Multiset τ)

  /-- A worker tests the condition of its loop. -/
  | loop (w : τ)

  /-- A worker calls `Take`, is woken in it, or goes on with it. -/
  | take (w : τ) (woken : Multiset τ)
  | wakeTake (w : τ)
  | resumeTake (w : τ) (woken : Multiset τ)

  /-- The task of a worker returns. -/
  | finish (w : τ)

  /-- Some thread calls `Stop`, or goes on to the next thread to join. -/
  | stop
  | join

namespace PoolSystem

open ThreadPool

def start (threads : List τ) (maxQueueSize : ℕ) : PoolSystem τ α :=
  { pool := .start threads maxQueueSize, phase := fun _ => .loop, finished := [], toJoin := none }

def setPool (s : PoolSystem τ α) (pool : ThreadPool τ α) : PoolSystem τ α := { s with pool := pool }

omit [DecidableEq τ] in
@[simp] theorem setPool_pool (s : PoolSystem τ α) (pool : ThreadPool τ α) :
    (s.setPool pool).pool = pool := rfl

omit [DecidableEq τ] in
@[simp] theorem setPool_phase (s : PoolSystem τ α) (pool : ThreadPool τ α) :
    (s.setPool pool).phase = s.phase := rfl

def setPhase (s : PoolSystem τ α) (w : τ) (x : WorkerPhase α) : PoolSystem τ α :=
  { s with phase := Function.update s.phase w x }

def afterTake (p : ThreadPool τ α) : WorkerPhase α :=
  match p.queue with
  | [] => if p.running then .waiting else .task none
  | x :: _ => .task (some x)

/-- The thread may call `Run`: it is no worker, or a worker that runs a task. -/
def MayRun (s : PoolSystem τ α) (t : τ) : Prop := t ∈ s.pool.threads → ∃ x, s.phase t = .task x

instance (s : PoolSystem τ α) (t : τ) : Decidable (s.MayRun t) :=
  if ht : t ∈ s.pool.threads then
    match h : s.phase t with
    | .task x => isTrue fun _ => ⟨x, h⟩
    | .loop | .take | .waiting | .finished =>
      isFalse fun hm => by
        obtain ⟨x, hx⟩ := hm ht
        rw [h] at hx
        cases hx
  else isTrue fun hm => absurd hm ht

def step (s : PoolSystem τ α) : PoolLabel τ α → Except Fault (PoolSystem τ α)
  | .run t task woken =>
    if s.MayRun t then do
      let pool ← s.pool.step (.run t task woken)
      return s.setPool pool
    else return s
  | .wakeRun t => do
    let pool ← s.pool.step (.wakeRun t)
    return s.setPool pool
  | .resumeRun t woken => do
    let pool ← s.pool.step (.resumeRun t woken)
    return s.setPool pool
  | .loop w =>
    match s.phase w with
    | .loop =>
      if w ∈ s.pool.threads then
        return s.setPhase w (if s.pool.running then .take else .finished)
      else return s
    | _ => return s
  | .take w woken =>
    match s.phase w with
    | .take =>
      if w ∈ s.pool.threads ∧ s.pool.notFull.Wakes woken then do
        let pool ← s.pool.step (.take w woken)
        return (s.setPool pool).setPhase w (afterTake s.pool)
      else return s
    | _ => return s
  | .wakeTake w => do
    let pool ← s.pool.step (.wakeTake w)
    return s.setPool pool
  | .resumeTake w woken =>
    if s.pool.notEmpty.Resumable w ∧ s.pool.notFull.Wakes woken then do
      let pool ← s.pool.step (.resumeTake w woken)
      return (s.setPool pool).setPhase w (afterTake s.pool)
    else return s
  | .finish w =>
    match s.phase w with
    | .task x =>
      if w ∈ s.pool.threads ∧ w ∉ s.pool.notFull.threads then
        return { s with finished := s.finished ++ x.toList }.setPhase w .loop
      else return s
    | _ => return s
  | .stop =>
    match s.toJoin with
    | none => return { s with pool := s.pool.stop, toJoin := some s.pool.threads }
    | some _ => return s
  | .join =>
    match s.toJoin with
    | some (w :: rest) =>
      match s.phase w with
      | .finished => return { s with toJoin := some rest }
      | _ => return s
    | _ => return s

def inProgress (s : PoolSystem τ α) : Multiset α :=
  ∑ w ∈ s.pool.threads.toFinset, (s.phase w).held

/-- A bound for the steps that the threads of a stopped pool have still to make. -/
def remaining (s : PoolSystem τ α) : ℕ :=
  ∑ w ∈ s.pool.threads.toFinset, (s.phase w).rank + s.pool.notFull.threads.card

structure Inv (threads : List τ) (maxSize : ℕ) (s : PoolSystem τ α) : Prop where
  pool : s.pool.Inv maxSize
  threads_eq : s.pool.threads = threads
  waiting_iff : ∀ w, w ∈ s.pool.notEmpty.threads ↔ w ∈ s.pool.threads ∧ s.phase w = .waiting
  inRun : ∀ t ∈ s.pool.notFull.threads, s.MayRun t ∧ s.pool.argument t ≠ none
  taken : (s.pool.taken : Multiset α) = s.finished + s.inProgress
  finished_stopped : ∀ w, s.phase w = .finished → s.pool.running = false
  toJoin_iff : s.toJoin = none ↔ s.pool.running = true
  joined : ∀ rest, s.toJoin = some rest → (∀ w ∈ rest, w ∈ s.pool.threads) ∧
    ∀ w ∈ s.pool.threads, w ∉ rest → s.phase w = .finished

theorem sum_update {M : Type*} [AddCommMonoid M] {threads : Finset τ} {w : τ} (hw : w ∈ threads)
    (phase : τ → WorkerPhase α) (x : WorkerPhase α) (f : WorkerPhase α → M) :
    ∑ v ∈ threads, f (Function.update phase w x v) + f (phase w) =
      ∑ v ∈ threads, f (phase v) + f x := by
  rw [← Finset.add_sum_erase _ _ hw, ← Finset.add_sum_erase _ (fun v => f (phase v)) hw,
    Function.update_self]
  have hrest : ∑ v ∈ threads.erase w, f (Function.update phase w x v) =
      ∑ v ∈ threads.erase w, f (phase v) := by
    refine Finset.sum_congr rfl fun v hv => ?_
    rw [Function.update_of_ne (Finset.ne_of_mem_erase hv)]
  rw [hrest, add_right_comm, add_right_comm (f (phase w)), add_comm (f x)]

variable {threads : List τ} {maxSize : ℕ} {s : PoolSystem τ α} {w : τ}

theorem inProgress_setPhase (hw : w ∈ s.pool.threads) (x : WorkerPhase α) :
    (s.setPhase w x).inProgress + (s.phase w).held = s.inProgress + x.held :=
  sum_update (List.mem_toFinset.mpr hw) s.phase x WorkerPhase.held

theorem remaining_setPhase (hw : w ∈ s.pool.threads) (x : WorkerPhase α) :
    (s.setPhase w x).remaining + (s.phase w).rank = s.remaining + x.rank := by
  have hsum := sum_update (List.mem_toFinset.mpr hw) s.phase x WorkerPhase.rank
  simp only [remaining, setPhase]
  omega

theorem start_inv (h : threads ≠ []) :
    (start threads maxSize : PoolSystem τ α).Inv threads maxSize where
  pool := ThreadPool.start_inv h
  threads_eq := rfl
  waiting_iff w := by simp [start, ThreadPool.start, CondVar.threads, CondVar.new]
  inRun t ht := by simp [start, ThreadPool.start, CondVar.threads, CondVar.new] at ht
  taken := by simp [start, ThreadPool.start, inProgress, WorkerPhase.held]
  finished_stopped w hw := by cases hw
  toJoin_iff := iff_of_true rfl rfl
  joined rest h := by cases h

structure RunFrame (p q : ThreadPool τ α) (t : τ) : Prop where
  threads_eq : q.threads = p.threads
  running_eq : q.running = p.running
  taken_eq : q.taken = p.taken
  workers_eq : q.notEmpty.threads = p.notEmpty.threads
  callers : ∀ v ∈ q.notFull.threads, v = t ∨ v ∈ p.notFull.threads
  argument : (∀ v ∈ p.notFull.threads, p.argument v ≠ none) →
    ∀ v ∈ q.notFull.threads, q.argument v ≠ none
  stopped : p.running = false → q.notFull.threads.card ≤ p.notFull.threads.card

omit [DecidableEq τ] in
theorem RunFrame.refl (p : ThreadPool τ α) (t : τ) : RunFrame p p t where
  threads_eq := rfl
  running_eq := rfl
  taken_eq := rfl
  workers_eq := rfl
  callers _ hv := .inr hv
  argument h := h
  stopped _ := le_rfl

theorem runLocked_frame {p q : ThreadPool τ α} {t : τ} {task : α} {woken : Multiset τ}
    (hw : p.notEmpty.Wakes woken) (h : p.runLocked t task woken = .ok q) : RunFrame p q t := by
  unfold runLocked at h
  split_ifs at h with hwait hstop
  · cases h
    refine ⟨rfl, rfl, rfl, rfl, fun v hv => ?_, fun hargument v hv => ?_, fun hs => ?_⟩
    · rw [CondVar.threads_wait] at hv
      exact Multiset.mem_cons.mp hv
    · rw [CondVar.threads_wait] at hv
      dsimp only
      by_cases hvt : v = t
      · rw [hvt, Function.update_self]
        exact Option.some_ne_none task
      · rw [Function.update_of_ne hvt]
        exact hargument v ((Multiset.mem_cons.mp hv).resolve_left hvt)
    · rw [hs] at hwait
      cases hwait.2
  · obtain ⟨-, h⟩ := check_bind_eq_ok h
    cases h
    exact ⟨rfl, rfl, rfl, CondVar.threads_notify hw, fun v hv => .inr hv, fun ha => ha,
      fun _ => le_rfl⟩
  · cases h
    exact RunFrame.refl p t

theorem Inv.run (h : s.Inv threads maxSize) {q : ThreadPool τ α} {t : τ} (ht : s.MayRun t)
    (hq : q.Inv maxSize) (hf : RunFrame s.pool q t) : (s.setPool q).Inv threads maxSize where
  pool := hq
  threads_eq := hf.threads_eq.trans h.threads_eq
  waiting_iff w := by
    rw [setPool_pool, hf.workers_eq, hf.threads_eq]
    exact h.waiting_iff w
  inRun v hv := by
    refine ⟨fun hmem => ?_, hf.argument (fun u hu => (h.inRun u hu).2) v hv⟩
    rw [setPool_pool, hf.threads_eq] at hmem
    rcases hf.callers v hv with rfl | hold
    · exact ht hmem
    · exact (h.inRun v hold).1 hmem
  taken := by
    have hsum : (s.setPool q).inProgress = s.inProgress := by
      simp only [inProgress, setPool_pool, setPool_phase, hf.threads_eq]
    rw [hsum, setPool_pool, hf.taken_eq]
    exact h.taken
  finished_stopped w hw := hf.running_eq.trans (h.finished_stopped w hw)
  toJoin_iff := by
    rw [setPool_pool, hf.running_eq]
    exact h.toJoin_iff
  joined rest hrest := by
    rw [setPool_pool, hf.threads_eq]
    exact h.joined rest hrest

theorem remaining_run {q : ThreadPool τ α} {t : τ} (hf : RunFrame s.pool q t)
    (hs : s.pool.running = false) : (s.setPool q).remaining ≤ s.remaining := by
  have hcard := hf.stopped hs
  simp only [remaining, setPool_pool, setPool_phase, hf.threads_eq]
  omega

structure TakeFrame (p q : ThreadPool τ α) (w : τ) : Prop where
  threads_eq : q.threads = p.threads
  running_eq : q.running = p.running
  argument_eq : q.argument = p.argument
  callers_eq : q.notFull.threads = p.notFull.threads
  taken : (q.taken : Multiset α) = p.taken + (afterTake p).held
  workers : ∀ v, v ≠ w → (v ∈ q.notEmpty.threads ↔ v ∈ p.notEmpty.threads)
  self : w ∈ q.notEmpty.threads ↔ afterTake p = .waiting

theorem take_frame {p : ThreadPool τ α} {woken : Multiset τ} (hidle : w ∉ p.notEmpty.threads)
    (hw : p.notFull.Wakes woken) : TakeFrame p (p.take w woken) w := by
  unfold ThreadPool.take
  split
  · next hempty =>
    split
    · next hr =>
      have hafter : afterTake p = .waiting := by simp [afterTake, hempty, hr]
      refine ⟨rfl, rfl, rfl, rfl, by simp [hafter, WorkerPhase.held], fun v hv => ?_, ?_⟩
      · rw [CondVar.threads_wait, Multiset.mem_cons, or_iff_right hv]
      · rw [CondVar.threads_wait, hafter]
        simp
    · next hr =>
      have hafter : afterTake p = .task none := by simp [afterTake, hempty, hr]
      refine ⟨rfl, rfl, rfl, rfl, by simp [hafter, WorkerPhase.held], fun v _ => Iff.rfl, ?_⟩
      simp [hafter, hidle]
  · next x rest hcons =>
    have hafter : afterTake p = .task (some x) := by simp [afterTake, hcons]
    refine ⟨rfl, rfl, rfl, ?_, ?_, fun v _ => Iff.rfl, ?_⟩
    · dsimp only
      split
      · exact CondVar.threads_notify hw
      · rfl
    · simp [hafter, WorkerPhase.held, ← Multiset.coe_add]
    · simp [hafter, hidle]

theorem Inv.take (h : s.Inv threads maxSize) {q : ThreadPool τ α} (hw : w ∈ s.pool.threads)
    (hphase : s.phase w = .take ∨ s.phase w = .waiting) (hq : q.Inv maxSize)
    (hf : TakeFrame s.pool q w) :
    ((s.setPool q).setPhase w (afterTake s.pool)).Inv threads maxSize := by
  have hheld : (s.phase w).held = 0 := by
    rcases hphase with hp | hp <;> rw [hp] <;> rfl
  have hother : ∀ v, v ≠ w → Function.update s.phase w (afterTake s.pool) v = s.phase v :=
    fun v hv => Function.update_of_ne hv ..
  have hself : Function.update s.phase w (afterTake s.pool) w = afterTake s.pool :=
    Function.update_self ..
  have hnot : w ∉ s.pool.notFull.threads := by
    intro hmem
    obtain ⟨x, hx⟩ := (h.inRun w hmem).1 hw
    rcases hphase with hp | hp <;> rw [hp] at hx <;> cases hx
  have hne : afterTake s.pool ≠ .finished := by
    unfold afterTake
    split
    · split <;> simp
    · simp
  refine ⟨hq, hf.threads_eq.trans h.threads_eq, fun v => ?_, fun v hv => ?_, ?_, fun v hv => ?_, ?_,
    fun rest hrest => ?_⟩
  · simp only [setPhase, setPool, hf.threads_eq]
    by_cases hv : v = w
    · rw [hv, hself, hf.self]
      exact (and_iff_right hw).symm
    · rw [hother v hv, hf.workers v hv]
      exact h.waiting_iff v
  · simp only [setPhase, setPool, hf.callers_eq] at hv
    obtain ⟨hmay, hargument⟩ := h.inRun v hv
    have hvw : v ≠ w := fun he => hnot (he ▸ hv)
    refine ⟨fun hmem => ?_, by simpa only [setPhase, setPool, hf.argument_eq] using hargument⟩
    simp only [setPhase, setPool, hf.threads_eq, hother v hvw] at hmem ⊢
    exact hmay hmem
  · have hprogress := inProgress_setPhase hw (afterTake s.pool)
    rw [hheld, add_zero] at hprogress
    have hsame : ((s.setPool q).setPhase w (afterTake s.pool)).inProgress =
        (s.setPhase w (afterTake s.pool)).inProgress := by
      simp only [inProgress, setPhase, setPool, hf.threads_eq]
    rw [hsame, hprogress]
    simp only [setPhase, setPool, hf.taken, h.taken, add_assoc]
  · simp only [setPhase, setPool] at hv ⊢
    rw [hf.running_eq]
    by_cases hvw : v = w
    · rw [hvw, hself] at hv
      exact absurd hv hne
    · exact h.finished_stopped v (hother v hvw ▸ hv)
  · simp only [setPhase, setPool, hf.running_eq]
    exact h.toJoin_iff
  · obtain ⟨hsub, hfinished⟩ := h.joined rest hrest
    simp only [setPhase, setPool, hf.threads_eq]
    refine ⟨hsub, fun v hv hnotrest => ?_⟩
    have hfin := hfinished v hv hnotrest
    by_cases hvw : v = w
    · rw [hvw] at hfin
      rcases hphase with hp | hp <;> rw [hp] at hfin <;> cases hfin
    · rw [hother v hvw]
      exact hfin

theorem Inv.move (h : s.Inv threads maxSize) {x : WorkerPhase α} {finished : List α}
    (hw : w ∈ s.pool.threads) (hnot : w ∉ s.pool.notFull.threads)
    (hold : s.phase w ≠ .waiting ∧ s.phase w ≠ .finished) (hx : x ≠ .waiting)
    (hstop : x = .finished → s.pool.running = false)
    (hheld : (s.finished : Multiset α) + (s.phase w).held = finished + x.held) :
    ({ s with finished := finished }.setPhase w x).Inv threads maxSize := by
  have hother : ∀ v, v ≠ w → Function.update s.phase w x v = s.phase v :=
    fun v hv => Function.update_of_ne hv ..
  have hself : Function.update s.phase w x w = x := Function.update_self ..
  refine ⟨h.pool, h.threads_eq, fun v => ?_, fun v hv => ?_, ?_, fun v hv => ?_, h.toJoin_iff,
    fun rest hrest => ?_⟩
  · simp only [setPhase]
    rw [h.waiting_iff v]
    by_cases hv : v = w
    · rw [hv, hself]
      simp [hold.1, hx]
    · rw [hother v hv]
  · have hvw : v ≠ w := fun he => hnot (he ▸ hv)
    obtain ⟨hmay, hargument⟩ := h.inRun v hv
    refine ⟨fun hmem => ?_, hargument⟩
    simp only [setPhase, hother v hvw]
    exact hmay hmem
  · have hprogress := inProgress_setPhase hw x
    have hsame : ({ s with finished := finished }.setPhase w x).inProgress =
        (s.setPhase w x).inProgress := rfl
    rw [hsame]
    simp only [setPhase] at hprogress ⊢
    have hall : (s.pool.taken : Multiset α) + (s.phase w).held =
        finished + (s.setPhase w x).inProgress + (s.phase w).held := by
      calc (s.pool.taken : Multiset α) + (s.phase w).held
          = s.finished + (s.phase w).held + s.inProgress := by rw [h.taken, add_right_comm]
        _ = finished + (s.inProgress + x.held) := by
          rw [hheld, add_assoc, add_comm x.held]
        _ = finished + (s.setPhase w x).inProgress + (s.phase w).held := by
          rw [add_assoc, ← hprogress]
          rfl
    exact add_right_cancel hall
  · simp only [setPhase] at hv ⊢
    by_cases hvw : v = w
    · rw [hvw, hself] at hv
      exact hstop hv
    · exact h.finished_stopped v (hother v hvw ▸ hv)
  · obtain ⟨hsub, hfinished⟩ := h.joined rest hrest
    refine ⟨hsub, fun v hv hnotrest => ?_⟩
    have hfin := hfinished v hv hnotrest
    by_cases hvw : v = w
    · exact absurd (hvw ▸ hfin) hold.2
    · simp only [setPhase, hother v hvw]
      exact hfin

theorem Inv.loop (h : s.Inv threads maxSize) (hw : w ∈ s.pool.threads)
    (hphase : s.phase w = .loop) :
    (s.setPhase w (if s.pool.running then .take else .finished)).Inv threads maxSize := by
  have hnot : w ∉ s.pool.notFull.threads := by
    intro hmem
    obtain ⟨x, hx⟩ := (h.inRun w hmem).1 hw
    rw [hphase] at hx
    cases hx
  have hheld : (s.finished : Multiset α) + (s.phase w).held =
      (s.finished : Multiset α) +
        (if s.pool.running then WorkerPhase.take else .finished).held := by
    rw [hphase]
    split <;> rfl
  refine h.move hw hnot (by simp [hphase]) ?_ ?_ hheld
  · split <;> simp
  · split
    · simp
    · next hr =>
      intro _
      exact Bool.eq_false_of_not_eq_true hr

theorem Inv.finish (h : s.Inv threads maxSize) (hw : w ∈ s.pool.threads)
    (hnot : w ∉ s.pool.notFull.threads) {x : Option α} (hphase : s.phase w = .task x) :
    ({ s with finished := s.finished ++ x.toList }.setPhase w .loop).Inv threads maxSize := by
  refine h.move hw hnot (by simp [hphase]) (by simp) (by simp) ?_
  rw [hphase]
  cases x with
  | none => simp [WorkerPhase.held]
  | some x => simp [WorkerPhase.held, ← Multiset.coe_add]

theorem Inv.stop (h : s.Inv threads maxSize) :
    { s with pool := s.pool.stop, toJoin := some s.pool.threads }.Inv threads maxSize where
  pool := ThreadPool.stop_inv h.pool
  threads_eq := h.threads_eq
  waiting_iff v := by
    simp only [ThreadPool.stop, CondVar.threads_notifyAll]
    exact h.waiting_iff v
  inRun v hv := by
    simp only [ThreadPool.stop, CondVar.threads_notifyAll] at hv
    exact h.inRun v hv
  taken := h.taken
  finished_stopped _ _ := rfl
  toJoin_iff := by simp [ThreadPool.stop]
  joined rest hrest := by
    cases hrest
    exact ⟨fun v hv => hv, fun v hv hnot => absurd hv hnot⟩

theorem Inv.join (h : s.Inv threads maxSize) {rest : List τ} (hs : s.toJoin = some (w :: rest))
    (hphase : s.phase w = .finished) : { s with toJoin := some rest }.Inv threads maxSize where
  pool := h.pool
  threads_eq := h.threads_eq
  waiting_iff := h.waiting_iff
  inRun := h.inRun
  taken := h.taken
  finished_stopped := h.finished_stopped
  toJoin_iff := by
    have hrunning : s.pool.running ≠ true := by
      rw [Ne, ← h.toJoin_iff, hs]
      simp
    simp [hrunning]
  joined rest' hrest := by
    cases hrest
    obtain ⟨hsub, hfinished⟩ := h.joined _ hs
    refine ⟨fun v hv => hsub v (List.mem_cons_of_mem w hv), fun v hv hnot => ?_⟩
    by_cases hvw : v = w
    · rw [hvw]
      exact hphase
    · refine hfinished v hv fun hmem => hnot ?_
      exact (List.mem_cons.mp hmem).resolve_left hvw

theorem Inv.idle (h : s.Inv threads maxSize) (hw : w ∈ s.pool.threads)
    (hphase : s.phase w = .take) :
    s.pool.Idle w := by
  constructor
  · intro hmem
    have hwait := ((h.waiting_iff w).mp hmem).2
    rw [hphase] at hwait
    cases hwait
  · intro hmem
    obtain ⟨x, hx⟩ := (h.inRun w hmem).1 hw
    rw [hphase] at hx
    cases hx

theorem run_step (h : s.Inv threads maxSize) (t : τ) (task : α) (woken : Multiset τ) :
    Yields (s.pool.step (.run t task woken)) fun q => q.Inv maxSize ∧ RunFrame s.pool q t := by
  obtain ⟨q, hq, hinv⟩ := h.pool.step_inv (.run t task woken)
  refine ⟨q, hq, hinv, ?_⟩
  simp only [ThreadPool.step] at hq
  split at hq
  · next hguard =>
    rw [ThreadPool.run, if_neg h.pool.threads_ne] at hq
    exact runLocked_frame hguard.2 hq
  · cases hq
    exact RunFrame.refl _ t

/-- A caller that goes on with `Run` leaves the condition variable, at least for a moment. -/
theorem resumeRun_step (h : s.Inv threads maxSize) (t : τ) (woken : Multiset τ) :
    Yields (s.pool.step (.resumeRun t woken)) fun q => q.Inv maxSize ∧ RunFrame s.pool q t ∧
      s.MayRun t ∨ q = s.pool := by
  obtain ⟨q, hq, hinv⟩ := h.pool.step_inv (.resumeRun t woken)
  refine ⟨q, hq, ?_⟩
  simp only [ThreadPool.step] at hq
  split at hq
  · next task htask =>
    split at hq
    · next hguard =>
      have hthreads := CondVar.threads_resume hguard.1
      have hframe := runLocked_frame (p := { s.pool with notFull := s.pool.notFull.resume t })
        hguard.2 hq
      have hmem : t ∈ s.pool.notFull.threads := hthreads ▸ Multiset.mem_cons_self t _
      refine .inl ⟨hinv, ⟨hframe.threads_eq, hframe.running_eq, hframe.taken_eq, hframe.workers_eq,
        fun v hv => ?_, fun hargument => hframe.argument fun v hv => ?_, fun hs => ?_⟩,
        (h.inRun t hmem).1⟩
      · refine (hframe.callers v hv).imp_right fun hold => ?_
        exact hthreads ▸ Multiset.mem_cons_of_mem hold
      · exact hargument v (hthreads ▸ Multiset.mem_cons_of_mem hv)
      · have hcard := congrArg Multiset.card hthreads
        rw [Multiset.card_cons] at hcard
        have := hframe.stopped hs
        simp only at this
        omega
    · cases hq
      exact .inr rfl
  · cases hq
    exact .inr rfl

theorem take_step (h : s.Inv threads maxSize) (hw : w ∈ s.pool.threads) (hphase : s.phase w = .take)
    {woken : Multiset τ} (hwoken : s.pool.notFull.Wakes woken) :
    Yields (s.pool.step (.take w woken)) fun q => q.Inv maxSize ∧ TakeFrame s.pool q w := by
  obtain ⟨q, hq, hinv⟩ := h.pool.step_inv (.take w woken)
  refine ⟨q, hq, hinv, ?_⟩
  have hidle := h.idle hw hphase
  simp only [ThreadPool.step, if_pos (And.intro hw (And.intro hidle hwoken))] at hq
  cases hq
  exact take_frame hidle.1 hwoken

theorem resumeTake_step (h : s.Inv threads maxSize) (hr : s.pool.notEmpty.Resumable w)
    {woken : Multiset τ} (hwoken : s.pool.notFull.Wakes woken) :
    Yields (s.pool.step (.resumeTake w woken)) fun q => q.Inv maxSize ∧ TakeFrame s.pool q w := by
  obtain ⟨q, hq, hinv⟩ := h.pool.step_inv (.resumeTake w woken)
  refine ⟨q, hq, hinv, ?_⟩
  have hthreads := CondVar.threads_resume hr
  have hdistinct := ThreadPool.Ready.distinct h.pool
  rw [← hthreads, Multiset.nodup_cons] at hdistinct
  simp only [ThreadPool.step, if_pos (And.intro hr hwoken)] at hq
  cases hq
  have hf := take_frame (p := { s.pool with notEmpty := s.pool.notEmpty.resume w })
    hdistinct.1 hwoken
  refine ⟨hf.threads_eq, hf.running_eq, hf.argument_eq, hf.callers_eq, hf.taken, fun v hv => ?_,
    hf.self⟩
  rw [hf.workers v hv, ← hthreads, Multiset.mem_cons, or_iff_right hv]

theorem remaining_take {q : ThreadPool τ α} (hf : TakeFrame s.pool q w) (hw : w ∈ s.pool.threads)
    (hphase : s.phase w = .take ∨ s.phase w = .waiting) (hs : s.pool.running = false) :
    ((s.setPool q).setPhase w (afterTake s.pool)).remaining + 1 = s.remaining := by
  have hrank := remaining_setPhase hw (afterTake s.pool)
  have hold : (s.phase w).rank = 3 := by
    rcases hphase with hp | hp <;> rw [hp] <;> rfl
  have hnew : (afterTake s.pool).rank = 2 := by
    unfold afterTake
    split
    · rw [if_neg (by simp [hs])]
      rfl
    · rfl
  have hsame : ((s.setPool q).setPhase w (afterTake s.pool)).remaining =
      (s.setPhase w (afterTake s.pool)).remaining := by
    simp only [remaining, setPhase, setPool, hf.threads_eq, hf.callers_eq]
  omega

/-- The invariant is kept, and no thread of a stopped pool goes back. -/
def Onward (threads : List τ) (maxSize : ℕ) (s t : PoolSystem τ α) : Prop :=
  t.Inv threads maxSize ∧
    (s.pool.running = false → t.pool.running = false ∧ t.remaining ≤ s.remaining)

theorem Inv.onward_self (h : s.Inv threads maxSize) : Onward threads maxSize s s :=
  ⟨h, fun hs => ⟨hs, le_rfl⟩⟩

theorem Inv.onward_run (h : s.Inv threads maxSize) {q : ThreadPool τ α} {t : τ} (ht : s.MayRun t)
    (hq : q.Inv maxSize) (hf : RunFrame s.pool q t) : Onward threads maxSize s (s.setPool q) :=
  ⟨h.run ht hq hf, fun hs => ⟨hf.running_eq.trans hs, remaining_run hf hs⟩⟩

theorem run_onward (h : s.Inv threads maxSize) (t : τ) (task : α) (woken : Multiset τ) :
    Yields (s.step (.run t task woken)) (Onward threads maxSize s) := by
  simp only [step]
  split
  · next ht =>
    exact yields_bind (run_step h t task woken) fun q hq =>
      yields_pure.mpr (h.onward_run ht hq.1 hq.2)
  · exact yields_pure.mpr h.onward_self

theorem wakeRun_onward (h : s.Inv threads maxSize) (t : τ) :
    Yields (s.step (.wakeRun t)) (Onward threads maxSize s) := by
  obtain ⟨q, hq, hinv⟩ := h.pool.step_inv (.wakeRun t)
  refine ⟨s.setPool q, by rw [step, hq]; rfl, ?_⟩
  simp only [ThreadPool.step] at hq
  split at hq
  · next hmem =>
    cases hq
    have hthreads := CondVar.threads_wakeUp hmem
    have hin : t ∈ s.pool.notFull.threads := by
      simp only [CondVar.threads, Multiset.mem_add]
      exact .inl (.inl hmem)
    refine h.onward_run (h.inRun t hin).1 hinv ⟨rfl, rfl, rfl, rfl, fun v hv => ?_,
      fun ha v hv => ?_, fun _ => ?_⟩
    · exact .inr (hthreads ▸ hv)
    · exact ha v (hthreads ▸ hv)
    · exact le_of_eq (congrArg Multiset.card hthreads)
  · cases hq
    exact h.onward_self

theorem resumeRun_onward (h : s.Inv threads maxSize) (t : τ) (woken : Multiset τ) :
    Yields (s.step (.resumeRun t woken)) (Onward threads maxSize s) := by
  refine yields_bind (resumeRun_step h t woken) fun q hq => yields_pure.mpr ?_
  rcases hq with ⟨hinv, hf, ht⟩ | rfl
  · exact h.onward_run ht hinv hf
  · exact h.onward_self

theorem loop_onward (h : s.Inv threads maxSize) (w : τ) :
    Yields (s.step (.loop w)) (Onward threads maxSize s) := by
  simp only [step]
  split
  · next hphase =>
    split
    · next hw =>
      refine yields_pure.mpr ⟨h.loop hw hphase, fun hs => ⟨hs, ?_⟩⟩
      have hrank := remaining_setPhase hw (if s.pool.running then .take else .finished)
      rw [hphase] at hrank
      simp only [hs, Bool.false_eq_true, if_false, WorkerPhase.rank] at hrank ⊢
      omega
    · exact yields_pure.mpr h.onward_self
  · exact yields_pure.mpr h.onward_self

theorem Inv.onward_take (h : s.Inv threads maxSize) {q : ThreadPool τ α} (hw : w ∈ s.pool.threads)
    (hphase : s.phase w = .take ∨ s.phase w = .waiting) (hq : q.Inv maxSize)
    (hf : TakeFrame s.pool q w) :
    Onward threads maxSize s ((s.setPool q).setPhase w (afterTake s.pool)) := by
  refine ⟨h.take hw hphase hq hf, fun hs => ⟨hf.running_eq.trans hs, ?_⟩⟩
  have hless := remaining_take hf hw hphase hs
  omega

theorem take_onward (h : s.Inv threads maxSize) (w : τ) (woken : Multiset τ) :
    Yields (s.step (.take w woken)) (Onward threads maxSize s) := by
  simp only [step]
  split
  · next hphase =>
    split
    · next hguard =>
      exact yields_bind (take_step h hguard.1 hphase hguard.2) fun q hq =>
        yields_pure.mpr (h.onward_take hguard.1 (.inl hphase) hq.1 hq.2)
    · exact yields_pure.mpr h.onward_self
  · exact yields_pure.mpr h.onward_self

theorem wakeTake_onward (h : s.Inv threads maxSize) (w : τ) :
    Yields (s.step (.wakeTake w)) (Onward threads maxSize s) := by
  obtain ⟨q, hq, hinv⟩ := h.pool.step_inv (.wakeTake w)
  refine ⟨s.setPool q, by rw [step, hq]; rfl, ?_⟩
  simp only [ThreadPool.step] at hq
  split at hq
  · next hmem =>
    cases hq
    have hthreads := CondVar.threads_wakeUp hmem
    refine ⟨{ h with pool := hinv, waiting_iff := fun v => ?_ }, fun hs => ⟨hs, le_rfl⟩⟩
    exact (iff_of_eq (congrArg (v ∈ ·) hthreads)).trans (h.waiting_iff v)
  · cases hq
    exact h.onward_self

theorem resumeTake_onward (h : s.Inv threads maxSize) (w : τ) (woken : Multiset τ) :
    Yields (s.step (.resumeTake w woken)) (Onward threads maxSize s) := by
  simp only [step]
  split
  · next hguard =>
    have hmem : w ∈ s.pool.notEmpty.threads :=
      CondVar.threads_resume hguard.1 ▸ Multiset.mem_cons_self w _
    obtain ⟨hw, hphase⟩ := (h.waiting_iff w).mp hmem
    exact yields_bind (resumeTake_step h hguard.1 hguard.2) fun q hq =>
      yields_pure.mpr (h.onward_take hw (.inr hphase) hq.1 hq.2)
  · exact yields_pure.mpr h.onward_self

theorem finish_onward (h : s.Inv threads maxSize) (w : τ) :
    Yields (s.step (.finish w)) (Onward threads maxSize s) := by
  simp only [step]
  split
  · next x hphase =>
    split
    · next hguard =>
      refine yields_pure.mpr ⟨h.finish hguard.1 hguard.2 hphase, fun hs => ⟨hs, ?_⟩⟩
      have hrank := remaining_setPhase hguard.1 (.loop : WorkerPhase α)
      rw [hphase] at hrank
      simp only [WorkerPhase.rank] at hrank
      change (s.setPhase w .loop).remaining ≤ s.remaining
      omega
    · exact yields_pure.mpr h.onward_self
  · exact yields_pure.mpr h.onward_self

theorem stop_onward (h : s.Inv threads maxSize) :
    Yields (s.step .stop) (Onward threads maxSize s) := by
  simp only [step]
  split
  · refine yields_pure.mpr ⟨h.stop, fun _ => ⟨rfl, le_of_eq ?_⟩⟩
    simp [remaining, ThreadPool.stop, CondVar.threads_notifyAll]
  · exact yields_pure.mpr h.onward_self

theorem join_onward (h : s.Inv threads maxSize) :
    Yields (s.step .join) (Onward threads maxSize s) := by
  simp only [step]
  split
  · next w rest hs =>
    split
    · next hphase => exact yields_pure.mpr ⟨h.join hs hphase, fun hs => ⟨hs, le_rfl⟩⟩
    · exact yields_pure.mpr h.onward_self
  · exact yields_pure.mpr h.onward_self

theorem step_inv (h : s.Inv threads maxSize) (l : PoolLabel τ α) :
    Yields (s.step l) (Onward threads maxSize s) := by
  cases l with
  | run t task woken => exact run_onward h t task woken
  | wakeRun t => exact wakeRun_onward h t
  | resumeRun t woken => exact resumeRun_onward h t woken
  | loop w => exact loop_onward h w
  | take w woken => exact take_onward h w woken
  | wakeTake w => exact wakeTake_onward h w
  | resumeTake w woken => exact resumeTake_onward h w woken
  | finish w => exact finish_onward h w
  | stop => exact stop_onward h
  | join => exact join_onward h

theorem resumeRun_stopped (h : s.Inv threads maxSize) (hs : s.pool.running = false) {t : τ}
    (ht : t ∈ s.pool.notFull.threads) :
    Yields (s.step (.resumeRun t 0)) fun s' => s'.remaining < s.remaining := by
  obtain ⟨task, htask⟩ := Option.ne_none_iff_exists'.mp (h.inRun t ht).2
  have hwaiting := ThreadPool.Ready.stopped h.pool hs
  have hresumable : s.pool.notFull.Resumable t := by
    simp only [CondVar.threads, Multiset.mem_add, hwaiting.2, Multiset.notMem_zero, false_or] at ht
    exact ht
  have hwakes : s.pool.notEmpty.Wakes 0 :=
    ⟨Multiset.zero_le _, fun hne => absurd hwaiting.1 hne⟩
  have hnot : ¬ (({ s.pool with notFull := s.pool.notFull.resume t } : ThreadPool τ α).isFull ∧
      s.pool.running = true) := by simp [hs]
  have hstep : s.pool.step (.resumeRun t 0) =
      .ok { s.pool with notFull := s.pool.notFull.resume t } := by
    simp only [ThreadPool.step, htask, if_pos (And.intro hresumable hwakes), ThreadPool.runLocked]
    rw [if_neg hnot, if_pos (by simp [hs])]
  rw [step, hstep, ok_bind]
  refine yields_pure.mpr ?_
  have hcard := congrArg Multiset.card (CondVar.threads_resume hresumable)
  rw [Multiset.card_cons] at hcard
  simp only [remaining, setPool]
  omega

/-- A worker of a stopped pool can go on until it has finished. -/
theorem worker_stopped (h : s.Inv threads maxSize) (hs : s.pool.running = false)
    (hw : w ∈ s.pool.threads) (hphase : s.phase w ≠ .finished) :
    ∃ l, Yields (s.step l) fun s' => s'.remaining < s.remaining := by
  obtain ⟨hnotEmpty, hnotFull⟩ := ThreadPool.Ready.stopped h.pool hs
  have hwakes : s.pool.notFull.Wakes 0 := ⟨Multiset.zero_le _, fun hne => absurd hnotFull hne⟩
  cases hcase : s.phase w with
  | finished => exact absurd hcase hphase
  | loop =>
    refine ⟨.loop w, s.setPhase w .finished, ?_, ?_⟩
    · simp [step, hcase, hw, hs]
      rfl
    · have hrank := remaining_setPhase hw (.finished : WorkerPhase α)
      rw [hcase] at hrank
      simp only [WorkerPhase.rank] at hrank
      omega
  | take =>
    obtain ⟨q, hq, -, hf⟩ := take_step h hw hcase hwakes
    refine ⟨.take w 0, (s.setPool q).setPhase w (afterTake s.pool), ?_, ?_⟩
    · simp only [step, hcase, if_pos (And.intro hw hwakes), hq, ok_bind]
      rfl
    · have := remaining_take hf hw (.inl hcase) hs
      omega
  | waiting =>
    have hresumable : s.pool.notEmpty.Resumable w := by
      have hmem := (h.waiting_iff w).mpr ⟨hw, hcase⟩
      simp only [CondVar.threads, Multiset.mem_add, hnotEmpty, Multiset.notMem_zero,
        false_or] at hmem
      exact hmem
    obtain ⟨q, hq, -, hf⟩ := resumeTake_step h hresumable hwakes
    refine ⟨.resumeTake w 0, (s.setPool q).setPhase w (afterTake s.pool), ?_, ?_⟩
    · simp only [step, if_pos (And.intro hresumable hwakes), hq, ok_bind]
      rfl
    · have := remaining_take hf hw (.inr hcase) hs
      omega
  | task x =>
    by_cases hmem : w ∈ s.pool.notFull.threads
    · exact ⟨_, resumeRun_stopped h hs hmem⟩
    · refine ⟨.finish w, { s with finished := s.finished ++ x.toList }.setPhase w .loop, ?_, ?_⟩
      · simp only [step, hcase, if_pos (And.intro hw hmem)]
        rfl
      · have hrank := remaining_setPhase hw (.loop : WorkerPhase α)
        rw [hcase] at hrank
        simp only [WorkerPhase.rank] at hrank
        change (s.setPhase w .loop).remaining < s.remaining
        omega

/-- What holds of the pool at any time. -/
structure Accounted (s : PoolSystem τ α) : Prop where
  tasks : (s.pool.accepted : Multiset α) = s.finished + s.inProgress + s.pool.queue

  /-- when `Stop` returns the workers have finished, -/
  drained : s.toJoin = some [] → (∀ w ∈ s.pool.threads, s.phase w = .finished) ∧
    (s.pool.accepted : Multiset α) = s.finished + s.pool.queue

  /-- and as long as it has not, somebody can go on, -/
  progress : s.pool.running = false →
    (∃ w ∈ s.pool.threads, s.phase w ≠ .finished) ∨ s.pool.notFull.threads ≠ 0 →
      ∃ l, Yields (s.step l) fun s' => s'.remaining < s.remaining

  /-- but nobody can go back. -/
  steady : s.pool.running = false → ∀ l, Yields (s.step l) fun s' => s'.pool.running = false ∧
    s'.remaining ≤ s.remaining

theorem Inv.accounted (h : s.Inv threads maxSize) : s.Accounted := by
  have htasks : (s.pool.accepted : Multiset α) = s.finished + s.inProgress + s.pool.queue := by
    rw [ThreadPool.Ready.fifo h.pool, ← Multiset.coe_add, h.taken]
  refine ⟨htasks, fun hjoin => ?_, fun hs hex => ?_, fun hs l => ?_⟩
  · have hall : ∀ w ∈ s.pool.threads, s.phase w = .finished :=
      fun w hw => (h.joined [] hjoin).2 w hw List.not_mem_nil
    refine ⟨hall, ?_⟩
    have hnone : s.inProgress = 0 := by
      refine Finset.sum_eq_zero fun w hw => ?_
      rw [hall w (List.mem_toFinset.mp hw)]
      rfl
    rw [htasks, hnone, add_zero]
  · rcases hex with ⟨w, hw, hphase⟩ | hne
    · exact worker_stopped h hs hw hphase
    · obtain ⟨t, ht⟩ := Multiset.exists_mem_of_ne_zero hne
      exact ⟨_, resumeRun_stopped h hs ht⟩
  · exact (step_inv h l).mono fun s' hs' => hs'.2 hs

end PoolSystem

/-- Whatever the workers, their tasks, the callers of `Run` and the caller of `Stop` do: every
accepted task has been run once, is being run, or waits in the queue; and once `Stop` has been
called all threads get through in a bounded number of steps, after which its joins return. -/
theorem thread_pool_stops {threads : List τ} (h : threads ≠ []) (maxQueueSize : ℕ)
    (labels : List (PoolLabel τ α)) :
    Yields (Fallible.run PoolSystem.step (.start threads maxQueueSize) labels)
      PoolSystem.Accounted := by
  refine (run_invariant (C := fun _ _ => True) (I := PoolSystem.Inv threads maxQueueSize) ?_
    (PoolSystem.start_inv h) (along_of_forall (fun _ _ => trivial) _ labels)).mono ?_
  · exact fun s l hs _ => (PoolSystem.step_inv hs l).mono fun s' hs' => hs'.1
  · exact fun s hs => hs.accounted

/-- One task is run, and another one is left in the queue. -/
theorem thread_pool_stops_with_task_left :
    Yields (Fallible.run PoolSystem.step (.start [0] 0)
      [.run 1 'a' 0, .loop 0, .take 0 0, .run 1 'b' 0, .stop, .finish 0, .loop 0, .join])
      fun s : PoolSystem ℕ Char => s.Accounted :=
  thread_pool_stops (by decide) 0 _

end Dwater
