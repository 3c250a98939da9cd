import Mathlib.Data.List.Forall2
import Dwater.Net.Wakeup

/-! # The order in which queued functors run

A history records the functors in the order in which their `push_back` took the mutex,
and every functor run with the thread that ran it and the call of `DoPendingFunctors`
that it was run by. The functors run are always the first ones pushed, each by the first
call whose swap comes after its push.
-/

set_option autoImplicit false
namespace Dwater

open Fallible EventLoop

variable {ι F : Type}

inductive LoopThread (ι : Type)
  | loop
  | other (t : ι)
  deriving DecidableEq, Repr

def LoopLabel.thread : LoopLabel ι F → LoopThread ι
  | .act _ | .runFunctor | .queueInLoop _ | .quitInLoop => .loop
  | .push t _ | .wake t | .quit t | .wakeQuit t => .other t

/-- A `push_back`, with the calls of `DoPendingFunctors` begun before it and the phase that the
loop thread was in. -/
structure Pushed (F : Type) where
  functor : F
  calls : ℕ
  phase : LoopPhase
  deriving DecidableEq, Repr

/-- A functor run, with the thread that ran it and the call of `DoPendingFunctors` running it. -/
structure Executed (ι F : Type) where
  functor : F
  thread : LoopThread ι
  call : ℕ
  deriving DecidableEq, Repr

/-- The push came while a call of `DoPendingFunctors` was running. -/
def Pushed.duringCall (p : Pushed F) : Prop := p.phase = .swapping ∨ p.phase = .running

/-- The first call of `DoPendingFunctors` that swaps at or after this point. -/
def nextSwap (calls : ℕ) (phase : LoopPhase) : ℕ := if phase = .swapping then calls else calls + 1

/-- The call of `DoPendingFunctors` that takes the functor. -/
def Pushed.taker (p : Pushed F) : ℕ := nextSwap p.calls p.phase

/-- A loop with the history of its functors. -/
structure FunctorHistory (ι F : Type) where
  system : LoopSystem ι F
  calls : ℕ
  pushed : List (Pushed F)
  executed : List (Executed ι F)
  deriving DecidableEq, Repr

namespace FunctorHistory

def new : FunctorHistory ι F := ⟨.new, 0, [], []⟩

def pushes (h : FunctorHistory ι F) : LoopLabel ι F → List (Pushed F)
  | .push _ f => [⟨f, h.calls, h.system.loop.phase⟩]
  | .queueInLoop f =>
    if h.system.loop.runsUserCode then [⟨f, h.calls, h.system.loop.phase⟩] else []
  | _ => []

def executes (h : FunctorHistory ι F) (x : LoopLabel ι F) : List (Executed ι F) :=
  match x, h.system.loop.nextFunctor with
  | .runFunctor, some (f, _) => [⟨f, x.thread, h.calls⟩]
  | _, _ => []

/-- The calls of `DoPendingFunctors` begun, after a step to `system`. -/
def callsAt (h : FunctorHistory ι F) (system : LoopSystem ι F) : ℕ :=
  if h.system.loop.phase ≠ .swapping ∧ system.loop.phase = .swapping then h.calls + 1
  else h.calls

def step [DecidableEq ι] (h : FunctorHistory ι F) (x : LoopLabel ι F) :
    Except Fault (FunctorHistory ι F) := do
  let system ← h.system.step x
  return { system := system
           calls := h.callsAt system
           pushed := h.pushed ++ h.pushes x
           executed := h.executed ++ h.executes x }

/-- The `i`-th functor run was the `i`-th one pushed. -/
def InPushOrder (h : FunctorHistory ι F) : Prop :=
  h.executed.map (·.functor) <+: h.pushed.map (·.functor)

/-- The functors not yet run are exactly those still held by the loop, in the same order. -/
def NoneLost (h : FunctorHistory ι F) : Prop :=
  h.executed.map (·.functor) ++ h.system.loop.todo = h.pushed.map (·.functor)

def InLoopThread (h : FunctorHistory ι F) : Prop := ∀ e ∈ h.executed, e.thread = .loop

def RanBy (h : FunctorHistory ι F) (p : Pushed F) (e : Executed ι F) : Prop :=
  ∃ i : ℕ, h.pushed[i]? = some p ∧ h.executed[i]? = some e

/-- A functor pushed during a call of `DoPendingFunctors` is run by a later one. -/
def DeferredFromCall (h : FunctorHistory ι F) : Prop :=
  ∀ p e, h.RanBy p e → p.duringCall → p.calls < e.call

/-- A functor pushed after the swap of a call of `DoPendingFunctors` is run by a later call. -/
def DeferredFromSwap (h : FunctorHistory ι F) : Prop :=
  ∀ p e, h.RanBy p e → p.phase = .running → p.calls < e.call

/-- A functor is run by the first call of `DoPendingFunctors` whose swap comes after its push. -/
def TakenAtNextSwap (h : FunctorHistory ι F) : Prop := ∀ p e, h.RanBy p e → e.call = p.taker

/-- The functors pushed are those run, those of the batch being run and those pending; each
carries the call that runs it, is running it or will swap it out. -/
structure Inv (h : FunctorHistory ι F) (ran taken waiting : List (Pushed F)) : Prop where
  coherent : h.system.loop.Coherent
  pushed_eq : h.pushed = ran ++ taken ++ waiting
  ran_executed : List.Forall₂ (fun p e => p.functor = e.functor ∧ e.thread = .loop ∧
    e.call = p.taker) ran h.executed
  taken_functors : taken.map (·.functor) = h.system.loop.functors
  taken_call : ∀ p ∈ taken, p.taker = h.calls
  waiting_functors : waiting.map (·.functor) = h.system.loop.pendingFunctors
  waiting_call : ∀ p ∈ waiting, p.taker = nextSwap h.calls h.system.loop.phase

/-- Every functor pushed is in one of the three places. -/
def Placed (h : FunctorHistory ι F) : Prop := ∃ ran taken waiting, h.Inv ran taken waiting

theorem new_placed : (new : FunctorHistory ι F).Placed :=
  ⟨[], [], [], new_coherent, rfl, .nil, rfl, by simp, rfl, by simp⟩

variable {h : FunctorHistory ι F} {ran taken waiting : List (Pushed F)}

theorem Inv.push (hi : h.Inv ran taken waiting) {l : EventLoop F} {f : F} (wakers : List ι)
    (hc : l.Coherent) (hp : l.phase = h.system.loop.phase)
    (hf : l.functors = h.system.loop.functors)
    (hq : l.pendingFunctors = h.system.loop.pendingFunctors ++ [f]) :
    Placed { h with
      system := { h.system with loop := l, wakers := wakers }
      pushed := h.pushed ++ [⟨f, h.calls, h.system.loop.phase⟩] } := by
  refine ⟨ran, taken, waiting ++ [⟨f, h.calls, h.system.loop.phase⟩], hc, ?_, hi.ran_executed,
    hi.taken_functors.trans hf.symm, hi.taken_call, ?_, ?_⟩
  · simp [hi.pushed_eq]
  · simp [hi.waiting_functors, hq]
  · intro p hp'
    rw [List.mem_append, List.mem_singleton] at hp'
    rcases hp' with hp' | rfl
    · exact (hi.waiting_call p hp').trans (by rw [hp])
    · exact (congrArg (nextSwap h.calls) hp).symm

theorem Inv.frame (hi : h.Inv ran taken waiting) {s : LoopSystem ι F} (hc : s.loop.Coherent)
    (hp : s.loop.phase = h.system.loop.phase) (hf : s.loop.functors = h.system.loop.functors)
    (hq : s.loop.pendingFunctors = h.system.loop.pendingFunctors) :
    Placed { h with system := s } := by
  refine ⟨ran, taken, waiting, hc, hi.pushed_eq, hi.ran_executed, hi.taken_functors.trans hf.symm,
    hi.taken_call, hi.waiting_functors.trans hq.symm, ?_⟩
  intro p hp'
  exact (hi.waiting_call p hp').trans (by rw [hp])

theorem callsAt_of_phase_eq {s : LoopSystem ι F} (hp : s.loop.phase = h.system.loop.phase) :
    h.callsAt s = h.calls := by
  unfold callsAt
  rw [if_neg]
  rintro ⟨hne, he⟩
  exact hne (hp ▸ he)

/-- The waiting functors keep their call when neither end of the step is just before a swap. -/
theorem Inv.outsideSwap (hi : h.Inv ran taken waiting) {l : EventLoop F} (hc : l.Coherent)
    (hp : h.system.loop.phase ≠ .swapping) (hp' : l.phase ≠ .swapping)
    (hf : l.functors = h.system.loop.functors)
    (hq : l.pendingFunctors = h.system.loop.pendingFunctors) :
    Placed { h with
      system := { h.system with loop := l }
      calls := h.callsAt { h.system with loop := l } } := by
  refine ⟨ran, taken, waiting, hc, hi.pushed_eq, hi.ran_executed, hi.taken_functors.trans hf.symm,
    ?_, hi.waiting_functors.trans hq.symm, ?_⟩
  · simpa [callsAt, hp'] using hi.taken_call
  · simpa [callsAt, hp, hp', nextSwap] using hi.waiting_call

theorem Inv.taken_nil (hi : h.Inv ran taken waiting) (hp : h.system.loop.phase ≠ .running) :
    taken = [] :=
  List.map_eq_nil_iff.mp (hi.taken_functors.trans (hi.coherent.functors_nil hp))

theorem Inv.moved (hi : h.Inv ran taken waiting) {l : EventLoop F}
    (hm : Moved h.system.loop l) :
    Placed { h with
      system := { h.system with loop := l }
      calls := h.callsAt { h.system with loop := l } } := by
  have hc : l.Coherent := hm.coherent hi.coherent
  cases hm with
  | stay =>
    rw [callsAt_of_phase_eq rfl]
    exact hi.frame hc rfl rfl rfl
  | enter hp => exact hi.outsideSwap hc (by simp [hp]) (by simp) rfl rfl
  | leave hp _ => exact hi.outsideSwap hc (by simp [hp]) (by simp) rfl rfl
  | poll hp _ => exact hi.outsideSwap hc (by simp [hp]) (by simp) rfl rfl
  | polled hp _ => exact hi.outsideSwap hc (by simp [hp]) (by simp) rfl rfl
  | read hp => exact hi.outsideSwap hc (by simp [hp]) (by simp) rfl rfl
  | ran hp _ => exact hi.outsideSwap hc (by simp [hp]) (by simp) rfl rfl
  | cleared hp => exact hi.outsideSwap hc (by simp [hp]) (by simp) rfl rfl
  | handled hp =>
    obtain rfl := hi.taken_nil (by simp [hp])
    refine ⟨ran, [], waiting, hc, hi.pushed_eq, hi.ran_executed, hi.taken_functors, by simp,
      hi.waiting_functors, ?_⟩
    simpa [callsAt, hp, nextSwap] using hi.waiting_call
  | swap hp =>
    obtain rfl := hi.taken_nil (by simp [hp])
    refine ⟨ran, waiting, [], hc, by simpa using hi.pushed_eq, hi.ran_executed,
      hi.waiting_functors, ?_, rfl, by simp⟩
    simpa [callsAt, hp, nextSwap] using hi.waiting_call

theorem Inv.runFunctor (hi : h.Inv ran taken waiting) {f : F} {l : EventLoop F}
    (hn : h.system.loop.nextFunctor = some (f, l)) :
    Placed { h with
      system := { h.system with loop := l }
      executed := h.executed ++ [⟨f, .loop, h.calls⟩] } := by
  obtain ⟨hp, hf, hp', hq, _, hc⟩ := hi.coherent.nextFunctor hn
  obtain ⟨p, rest, rfl, rfl, hrest⟩ := List.map_eq_cons_iff.mp (hi.taken_functors.trans hf)
  refine ⟨ran ++ [p], rest, waiting, hc, ?_, ?_, hrest, ?_, hi.waiting_functors.trans hq.symm, ?_⟩
  · simp [hi.pushed_eq]
  · have hlast : p.taker = h.calls := hi.taken_call p List.mem_cons_self
    exact List.rel_append hi.ran_executed (.cons ⟨rfl, rfl, hlast.symm⟩ .nil)
  · intro q hq'
    exact hi.taken_call q (List.mem_cons_of_mem p hq')
  · intro q hq'
    exact (hi.waiting_call q hq').trans (by rw [hp, hp'])

theorem Inv.quiet (hi : h.Inv ran taken waiting) {s : LoopSystem ι F} (hc : s.loop.Coherent)
    (hp : s.loop.phase = h.system.loop.phase) (hf : s.loop.functors = h.system.loop.functors)
    (hq : s.loop.pendingFunctors = h.system.loop.pendingFunctors) :
    Placed { h with
      system := s, calls := h.callsAt s,
      pushed := h.pushed ++ [],
      executed := h.executed ++ [] } := by
  rw [callsAt_of_phase_eq hp, List.append_nil, List.append_nil]
  exact hi.frame hc hp hf hq

variable [DecidableEq ι]

theorem step_placed (h : FunctorHistory ι F) (x : LoopLabel ι F) (hi : h.Placed) :
    Yields (h.step x) Placed := by
  obtain ⟨ran, taken, waiting, hi⟩ := hi
  cases x with
  | act a =>
    refine yields_bind (P := fun s => ∃ l, Moved h.system.loop l ∧ s = { h.system with loop := l })
      ?_ ?_
    · refine yields_bind (advance_moved hi.coherent a) fun l hl => ?_
      exact yields_pure.mpr ⟨l, hl, rfl⟩
    · rintro s ⟨l, hl, rfl⟩
      simpa [pushes, executes] using hi.moved hl
  | runFunctor =>
    cases hn : h.system.loop.nextFunctor with
    | none =>
      simp only [step, LoopSystem.step, pushes, executes, hn]
      exact yields_pure.mpr (hi.quiet hi.coherent rfl rfl rfl)
    | some fl =>
      obtain ⟨f, l⟩ := fl
      simp only [step, LoopSystem.step, pushes, executes, hn]
      have hp := hi.coherent.nextFunctor hn
      have hcalls : h.callsAt { h.system with loop := l } = h.calls :=
        callsAt_of_phase_eq (hp.2.2.1.trans hp.1.symm)
      refine yields_pure.mpr ?_
      simpa [hcalls, LoopLabel.thread] using hi.runFunctor hn
  | queueInLoop f =>
    simp only [step, LoopSystem.step, pushes, executes]
    split
    · have hcalls : h.callsAt { h.system with loop := h.system.loop.queueInLoop f } = h.calls :=
        callsAt_of_phase_eq (queueInLoop_phase f)
      refine yields_pure.mpr ?_
      simpa [hcalls] using hi.push h.system.wakers (hi.coherent.queueInLoop f)
        (queueInLoop_phase f) (queueInLoop_functors f) (queueInLoop_pendingFunctors f)
    · exact yields_pure.mpr (hi.quiet hi.coherent rfl rfl rfl)
  | quitInLoop =>
    simp only [step, LoopSystem.step, pushes, executes]
    split
    · exact yields_pure.mpr (hi.quiet hi.coherent.quit rfl rfl rfl)
    · exact yields_pure.mpr (hi.quiet hi.coherent rfl rfl rfl)
  | push t f =>
    have hcalls : h.callsAt { h.system with
        loop := h.system.loop.push f
        wakers := if h.system.loop.needsWakeup false then t :: h.system.wakers
          else h.system.wakers } = h.calls := callsAt_of_phase_eq rfl
    simp only [step, LoopSystem.step, pushes, executes]
    refine yields_pure.mpr ?_
    simpa [hcalls] using hi.push _ (hi.coherent.push f) rfl rfl rfl
  | wake t =>
    simp only [step, LoopSystem.step, pushes, executes]
    split
    · exact yields_pure.mpr (hi.quiet hi.coherent.wakeup rfl rfl rfl)
    · exact yields_pure.mpr (hi.quiet hi.coherent rfl rfl rfl)
  | quit t => exact yields_pure.mpr (hi.quiet hi.coherent.quit rfl rfl rfl)
  | wakeQuit t =>
    simp only [step, LoopSystem.step, pushes, executes]
    split
    · exact yields_pure.mpr (hi.quiet hi.coherent.wakeup rfl rfl rfl)
    · exact yields_pure.mpr (hi.quiet hi.coherent rfl rfl rfl)

omit [DecidableEq ι] in
theorem Inv.ran_at (hi : h.Inv ran taken waiting) {i : ℕ} (hr : i < ran.length)
    (he : i < h.executed.length) :
    ran[i].functor = h.executed[i].functor ∧ h.executed[i].thread = .loop ∧
      h.executed[i].call = ran[i].taker :=
  (List.forall₂_iff_get.mp hi.ran_executed).2 i hr he

omit [DecidableEq ι] in
theorem Inv.ranBy (hi : h.Inv ran taken waiting) {p : Pushed F} {e : Executed ι F}
    (hr : h.RanBy p e) : e.call = p.taker := by
  obtain ⟨i, hp, he⟩ := hr
  obtain ⟨hlt, rfl⟩ := List.getElem?_eq_some_iff.mp he
  have hlt' : i < ran.length := hi.ran_executed.length_eq ▸ hlt
  have hpi : ran[i]? = some p := by
    rwa [hi.pushed_eq, List.append_assoc, List.getElem?_append_left hlt'] at hp
  obtain ⟨_, rfl⟩ := List.getElem?_eq_some_iff.mp hpi
  exact (hi.ran_at hlt' hlt).2.2

omit [DecidableEq ι] in
theorem Inv.executed_functors (hi : h.Inv ran taken waiting) :
    h.executed.map (·.functor) = ran.map (·.functor) := by
  apply List.ext_getElem
  · simp [hi.ran_executed.length_eq]
  · intro i he hr
    rw [List.getElem_map, List.getElem_map]
    exact (hi.ran_at (by simpa using hr) (by simpa using he)).1.symm

omit [DecidableEq ι] in
theorem Inv.noneLost (hi : h.Inv ran taken waiting) : h.NoneLost := by
  simp only [NoneLost, todo, hi.executed_functors, ← hi.taken_functors, ← hi.waiting_functors,
    hi.pushed_eq, List.map_append, List.append_assoc]

omit [DecidableEq ι] in
theorem NoneLost.inPushOrder (hn : h.NoneLost) : h.InPushOrder := ⟨_, hn⟩

omit [DecidableEq ι] in
theorem Inv.inLoopThread (hi : h.Inv ran taken waiting) : h.InLoopThread := by
  intro e he
  obtain ⟨i, hlt, rfl⟩ := List.getElem_of_mem he
  exact (hi.ran_at (hi.ran_executed.length_eq ▸ hlt) hlt).2.1

/-- The functors run are the first ones pushed, once each and in order, all in the loop thread,
and each by the first call of `DoPendingFunctors` whose swap comes after its push. -/
theorem functors_run_in_order (labels : List (LoopLabel ι F)) :
    Yields (run step (new : FunctorHistory ι F) labels) fun h =>
      h.InPushOrder ∧ h.NoneLost ∧ h.InLoopThread ∧ h.DeferredFromSwap ∧ h.TakenAtNextSwap := by
  have hrun := run_invariant (fun s x hs (_ : True) => step_placed s x hs) new_placed
    (along_of_forall (fun _ _ => trivial) (new : FunctorHistory ι F) labels)
  refine hrun.mono ?_
  rintro h ⟨ran, taken, waiting, hi⟩
  refine ⟨hi.noneLost.inPushOrder, hi.noneLost, hi.inLoopThread, ?_, fun p e => hi.ranBy⟩
  intro p e hr hp
  rw [hi.ranBy hr, Pushed.taker, nextSwap, if_neg (by simp [hp])]
  exact Nat.lt_succ_self _

/-- A functor pushed by another thread after `DoPendingFunctors` was entered and before its swap is
run by that same call. -/
theorem push_before_swap_not_deferred :
    ¬ Yields (run step (new : FunctorHistory Unit Unit)
      [.act .loop, .act .testQuit, .act (.pollReturn false), .act .handled, .push () (),
        .act .swap, .runFunctor]) DeferredFromCall := by
  rintro ⟨h, hs, hd⟩
  cases hs
  exact Nat.lt_irrefl 1 (hd _ _ ⟨0, rfl, rfl⟩ (.inl rfl))

end FunctorHistory

end Dwater
