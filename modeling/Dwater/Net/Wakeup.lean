import Mathlib.Data.List.Basic
import Dwater.Net.EventLoop

/-! # Wakeups of the event loop

One loop thread and any number of other threads queue functors. A thread that is not
the loop thread pushes first and writes to the eventfd afterwards, as two steps. When
the loop thread calls `QueueInLoop` only from handlers and functors, it never waits in
`Poll` with functors pending unless the eventfd is readable or about to be written.
-/

set_option autoImplicit false
namespace Dwater

open Fallible EventLoop

variable {ι F : Type}

/-- The loop, the `QueueInLoop` calls that have pushed and not yet called `Wakeup`, and the
`Quit` calls that have set `quit_` and not yet called `Wakeup`. -/
structure LoopSystem (ι F : Type) where
  loop : EventLoop F
  wakers : List ι
  quitters : List ι
  deriving DecidableEq, Repr

/--
A step of the loop thread or of thread `t`. `RunInLoop` of another thread is its `QueueInLoop`;
`RunInLoop` of the loop thread runs the functor there and then, so its calls are steps of their own.
-/
inductive LoopLabel (ι F : Type)
  | act (a : LoopAction)
  | runFunctor
  | queueInLoop (f : F)
  | quitInLoop
  | push (t : ι) (f : F)
  | wake (t : ι)
  | quit (t : ι)
  | wakeQuit (t : ι)

namespace LoopSystem

def new : LoopSystem ι F := ⟨.new, [], []⟩

def step [DecidableEq ι] (s : LoopSystem ι F) : LoopLabel ι F → Except Fault (LoopSystem ι F)
  | .act a => do
    let loop ← s.loop.advance a
    return { s with loop := loop }
  | .runFunctor =>
    match s.loop.nextFunctor with
    | some (_, loop) => return { s with loop := loop }
    | none => return s
  | .queueInLoop f =>
    if s.loop.runsUserCode then return { s with loop := s.loop.queueInLoop f } else return s
  | .quitInLoop =>
    if s.loop.runsUserCode then return { s with loop := { s.loop with quit := true } } else return s
  | .push t f =>
    return { s with
      loop := s.loop.push f
      wakers := if s.loop.needsWakeup false then t :: s.wakers else s.wakers }
  | .wake t =>
    if t ∈ s.wakers then return { s with loop := s.loop.wakeup, wakers := s.wakers.erase t }
    else return s
  | .quit t =>
    return { s with loop := { s.loop with quit := true }, quitters := t :: s.quitters }
  | .wakeQuit t =>
    if t ∈ s.quitters then
      return { s with loop := s.loop.wakeup, quitters := s.quitters.erase t }
    else return s

/-- A pending functor will end the wait: the eventfd is readable or a push is still to be followed
by its `Wakeup`. -/
def Woken (s : LoopSystem ι F) : Prop :=
  s.loop.pendingFunctors ≠ [] → s.loop.readable ∨ s.wakers ≠ []

/-- Whenever the loop thread is in `Poll`, a pending functor will end the wait. -/
def NoLostWakeup (s : LoopSystem ι F) : Prop := s.loop.phase = .polling → s.Woken

/-- The loop thread calls `QueueInLoop` only from an event handler or from a functor: neither
outside `Loop()` nor from a destructor once the functors have run. -/
def QueuesInsideLoop (s : LoopSystem ι F) : LoopLabel ι F → Prop
  | .queueInLoop _ => (∃ a, s.loop.phase = .handling a) ∨ s.loop.phase = .running
  | _ => True

/-- The loop thread has yet to take the pending functors before it polls again. -/
def BeforeSwap (l : EventLoop F) : Prop := (∃ a, l.phase = .handling a) ∨ l.phase = .swapping

/-- Outside the stretch from the return of `Poll` to the swap, pending functors are woken for. -/
structure Inv (s : LoopSystem ι F) : Prop where
  coherent : s.loop.Coherent
  woken : BeforeSwap s.loop ∨ s.Woken

theorem new_inv : (new : LoopSystem ι F).Inv := ⟨new_coherent, .inr (fun h => absurd rfl h)⟩

theorem Inv.moved {s : LoopSystem ι F} {l : EventLoop F} (h : s.Inv) (hm : Moved s.loop l) :
    Inv { s with loop := l } := by
  refine ⟨hm.coherent h.coherent, ?_⟩
  have hout : ¬ BeforeSwap s.loop → s.Woken := fun hb => h.woken.resolve_left hb
  cases hm with
  | stay => exact h.woken
  | enter hp => exact .inr (hout (by simp [BeforeSwap, hp]))
  | leave hp _ => exact .inr (hout (by simp [BeforeSwap, hp]))
  | poll hp _ => exact .inr (hout (by simp [BeforeSwap, hp]))
  | polled _ _ => exact .inl (.inl ⟨_, rfl⟩)
  | read _ => exact .inl (.inl ⟨_, rfl⟩)
  | handled _ => exact .inl (.inr rfl)
  | swap _ => exact .inr (fun hp => absurd rfl hp)
  | ran hp _ => exact .inr (hout (by simp [BeforeSwap, hp]))
  | cleared hp => exact .inr (hout (by simp [BeforeSwap, hp]))

/-- A call from a functor finds `calling_pending_functors_` set, one from a handler is
followed by the swap. -/
theorem Inv.queueInLoop {s : LoopSystem ι F} (h : s.Inv) (f : F)
    (hx : s.QueuesInsideLoop (.queueInLoop f)) :
    Inv { s with loop := s.loop.queueInLoop f } := by
  refine ⟨h.coherent.queueInLoop f, ?_⟩
  rcases hx with ⟨a, hp⟩ | hp
  · exact .inl (.inl ⟨a, by simpa using hp⟩)
  · have hc : s.loop.callingPendingFunctors = true := h.coherent.calling_iff.mpr (.inr hp)
    refine .inr fun _ => .inl ?_
    simp [EventLoop.queueInLoop, needsWakeup, EventLoop.push, hc, readable, wakeup]

variable [DecidableEq ι]

theorem step_inv (s : LoopSystem ι F) (x : LoopLabel ι F) (h : s.Inv)
    (hx : s.QueuesInsideLoop x) : Yields (s.step x) Inv := by
  cases x with
  | act a =>
    refine yields_bind (advance_moved h.coherent a) fun l hl => ?_
    exact yields_pure.mpr (h.moved hl)
  | runFunctor =>
    simp only [step]
    split
    · next f l hn =>
      obtain ⟨hp, _, hp', hpend, hfd, hcoh⟩ := h.coherent.nextFunctor hn
      have hw : s.Woken := h.woken.resolve_left (by simp [BeforeSwap, hp])
      refine yields_pure.mpr ⟨hcoh, .inr ?_⟩
      simpa only [Woken, readable, hpend, hfd] using hw
    · exact yields_pure.mpr h
  | queueInLoop f =>
    simp only [step]
    split
    · exact yields_pure.mpr (h.queueInLoop f hx)
    · exact yields_pure.mpr h
  | quitInLoop =>
    simp only [step]
    split
    · exact yields_pure.mpr ⟨h.coherent.quit, h.woken⟩
    · exact yields_pure.mpr h
  | push t f =>
    refine yields_pure.mpr ⟨h.coherent.push f, .inr fun _ => .inr ?_⟩
    simp [needsWakeup]
  | wake t =>
    simp only [step]
    split
    · refine yields_pure.mpr ⟨h.coherent.wakeup, .inr fun _ => .inl ?_⟩
      exact Nat.succ_pos _
    · exact yields_pure.mpr h
  | quit t => exact yields_pure.mpr ⟨h.coherent.quit, h.woken⟩
  | wakeQuit t =>
    simp only [step]
    split
    · refine yields_pure.mpr ⟨h.coherent.wakeup, .inr fun _ => .inl ?_⟩
      exact Nat.succ_pos _
    · exact yields_pure.mpr h

/-- In a run whose loop thread queues only from handlers and functors, no wakeup is lost. -/
theorem no_lost_wakeup (labels : List (LoopLabel ι F))
    (h : Along step QueuesInsideLoop new labels) :
    Yields (run step (new : LoopSystem ι F) labels) NoLostWakeup := by
  refine (run_invariant step_inv new_inv h).mono fun s hs hp => ?_
  exact hs.woken.resolve_left (by simp [BeforeSwap, hp])

theorem no_lost_wakeup_foreign_push :
    Yields (run step (new : LoopSystem Unit Unit)
      [.act .loop, .push () (), .act .testQuit]) NoLostWakeup :=
  no_lost_wakeup _ ⟨trivial, fun _ _ => ⟨trivial, fun _ _ => ⟨trivial, fun _ _ => trivial⟩⟩⟩

/-- A functor queued by the loop thread before `Loop()` is not woken for. -/
theorem wakeup_lost_before_loop :
    ¬ Yields (run step (new : LoopSystem Unit Unit)
      [.queueInLoop (), .act .loop, .act .testQuit]) NoLostWakeup := by
  rintro ⟨s, hs, hw⟩
  cases hs
  rcases hw rfl (by decide) with h | h
  · exact Nat.lt_irrefl 0 h
  · exact h rfl

end LoopSystem

end Dwater
