import Dwater.Base.Types

/-! # The event loop and its functor queue

The loop thread moves through `Loop()` phase by phase: it tests `quit_`, waits in
`Poll`, handles the active channels, takes the pending functors, runs them and destroys
them. Other threads push functors under the mutex and then write to the eventfd. An
action of the loop thread that does not belong to its present phase changes nothing.
-/

set_option autoImplicit false
namespace Dwater

open Fallible

/-- Where the loop thread is. -/
inductive LoopPhase

  /-- Not inside `Loop()`. -/
  | outside

  /-- About to test `quit_`. -/
  | test

  /-- Inside `poller_->Poll`. -/
  | polling

  /-- In the loop over the active channels, with the wakeup channel still to be handled or not. -/
  | handling (wakeupActive : Bool)

  /-- In `DoPendingFunctors`, before the swap. -/
  | swapping

  /-- In `DoPendingFunctors`, running the functors. -/
  | running

  /-- At the end of `DoPendingFunctors`, where the functors that have run are destroyed. -/
  | clearing
  deriving DecidableEq, Repr

/-- An event loop with functors of type `F`, the counter of its eventfd and its thread's phase. -/
structure EventLoop (F : Type) where
  looping : Bool
  quit : Bool
  eventHandling : Bool
  callingPendingFunctors : Bool
  pendingFunctors : List F
  functors : List F
  wakeupFd : ℕ
  phase : LoopPhase
  deriving DecidableEq, Repr

/-- The moves of the loop thread that run no user code. -/
inductive LoopAction
  | loop
  | testQuit
  | pollReturn (wakeupActive : Bool)
  | handleRead
  | handled
  | swap
  | ran
  | cleared
  deriving DecidableEq, Repr

namespace EventLoop

variable {F : Type}

def new : EventLoop F :=
  { looping := false, quit := false, eventHandling := false, callingPendingFunctors := false,
    pendingFunctors := [], functors := [], wakeupFd := 0, phase := .outside }

def readable (l : EventLoop F) : Prop := 0 < l.wakeupFd

def wakeup (l : EventLoop F) : EventLoop F := { l with wakeupFd := l.wakeupFd + 1 }

def handleRead (l : EventLoop F) : EventLoop F := { l with wakeupFd := 0 }

/-- The critical section of `QueueInLoop`. -/
def push (l : EventLoop F) (f : F) : EventLoop F :=
  { l with pendingFunctors := l.pendingFunctors ++ [f] }

/-- The test by which `QueueInLoop` decides to call `Wakeup`. -/
def needsWakeup (l : EventLoop F) (inLoopThread : Bool) : Bool :=
  !inLoopThread || l.callingPendingFunctors

def queueInLoop (l : EventLoop F) (f : F) : EventLoop F :=
  let l := l.push f
  if l.needsWakeup true then l.wakeup else l

/-- `Loop()` up to its first test of `quit_`. -/
def loop (l : EventLoop F) : Except Fault (EventLoop F) := do
  check (l.looping = false) (.assertion .event_loop_cc 87)
  return { l with looping := true, quit := false, phase := .test }

/-- Whether user code runs on the loop thread in this phase: handlers, functors, and the destructors
of what the functors hold. -/
def runsUserCode (l : EventLoop F) : Bool :=
  match l.phase with
  | .outside | .handling _ | .running | .clearing => true
  | _ => false

def advance (l : EventLoop F) : LoopAction → Except Fault (EventLoop F)
  | .loop => if l.phase = .outside then l.loop else return l
  | .testQuit =>
    if l.phase = .test then
      if l.quit then return { l with looping := false, phase := .outside }
      else return { l with phase := .polling }
    else return l
  | .pollReturn wakeupActive =>
    if l.phase = .polling ∧ (wakeupActive = true → l.wakeupFd > 0) then
      return { l with eventHandling := true, phase := .handling wakeupActive }
    else return l
  | .handleRead =>
    if l.phase = .handling true then return { l.handleRead with phase := .handling false }
    else return l
  | .handled =>
    if l.phase = .handling false then
      return { l with eventHandling := false, callingPendingFunctors := true, phase := .swapping }
    else return l
  | .swap =>
    if l.phase = .swapping then
      return { l with functors := l.pendingFunctors, pendingFunctors := [], phase := .running }
    else return l
  | .ran =>
    if l.phase = .running ∧ l.functors = [] then
      return { l with callingPendingFunctors := false, phase := .clearing }
    else return l
  | .cleared => if l.phase = .clearing then return { l with phase := .test } else return l

def nextFunctor (l : EventLoop F) : Option (F × EventLoop F) :=
  match l.phase, l.functors with
  | .running, f :: fs => some (f, { l with functors := fs })
  | _, _ => none

/-- The flags agree with the phase, and a batch exists only while it is run. -/
structure Coherent (l : EventLoop F) : Prop where
  looping_iff : l.looping = false ↔ l.phase = .outside
  calling_iff : l.callingPendingFunctors = true ↔ l.phase = .swapping ∨ l.phase = .running
  functors_nil : l.phase ≠ .running → l.functors = []

theorem new_coherent : (new : EventLoop F).Coherent := by
  constructor <;> simp [new]

variable {l : EventLoop F}

@[simp] theorem push_phase (f : F) : (l.push f).phase = l.phase := rfl

@[simp] theorem queueInLoop_phase (f : F) : (l.queueInLoop f).phase = l.phase := by
  unfold queueInLoop; dsimp only; split <;> rfl

@[simp] theorem queueInLoop_functors (f : F) : (l.queueInLoop f).functors = l.functors := by
  unfold queueInLoop; dsimp only; split <;> rfl

@[simp] theorem queueInLoop_pendingFunctors (f : F) :
    (l.queueInLoop f).pendingFunctors = l.pendingFunctors ++ [f] := by
  unfold queueInLoop; dsimp only; split <;> rfl

@[simp] theorem queueInLoop_quit (f : F) : (l.queueInLoop f).quit = l.quit := by
  unfold queueInLoop; dsimp only; split <;> rfl

theorem le_wakeupFd_queueInLoop (f : F) : l.wakeupFd ≤ (l.queueInLoop f).wakeupFd := by
  unfold queueInLoop
  dsimp only
  split
  · exact Nat.le_succ l.wakeupFd
  · exact le_rfl

theorem nextFunctor_quit {f : F} {l' : EventLoop F} (hn : l.nextFunctor = some (f, l')) :
    l'.quit = l.quit := by
  unfold nextFunctor at hn
  split at hn <;> cases hn
  rfl

theorem Coherent.push (h : l.Coherent) (f : F) : (l.push f).Coherent :=
  ⟨h.looping_iff, h.calling_iff, h.functors_nil⟩

theorem Coherent.wakeup (h : l.Coherent) : l.wakeup.Coherent :=
  ⟨h.looping_iff, h.calling_iff, h.functors_nil⟩

theorem Coherent.quit (h : l.Coherent) : Coherent { l with quit := true } :=
  ⟨h.looping_iff, h.calling_iff, h.functors_nil⟩

theorem Coherent.queueInLoop (h : l.Coherent) (f : F) : (l.queueInLoop f).Coherent := by
  unfold EventLoop.queueInLoop
  dsimp only
  split
  · exact (h.push f).wakeup
  · exact h.push f

theorem Coherent.nextFunctor (h : l.Coherent) {f : F} {l' : EventLoop F}
    (hn : l.nextFunctor = some (f, l')) :
    l.phase = .running ∧ l.functors = f :: l'.functors ∧ l'.phase = .running ∧
      l'.pendingFunctors = l.pendingFunctors ∧ l'.wakeupFd = l.wakeupFd ∧ l'.Coherent := by
  unfold EventLoop.nextFunctor at hn
  split at hn
  · next hp hf =>
    cases hn
    refine ⟨hp, hf, hp, rfl, rfl, h.looping_iff, h.calling_iff, fun hne => absurd hp hne⟩
  · cases hn

/-- What the loop thread does between user code, by phase. -/
inductive Moved (l : EventLoop F) : EventLoop F → Prop

  | stay : Moved l l

  | enter : l.phase = .outside → Moved l { l with looping := true, quit := false, phase := .test }

  | leave : l.phase = .test → l.quit = true →
      Moved l { l with looping := false, phase := .outside }

  | poll : l.phase = .test → l.quit = false → Moved l { l with phase := .polling }

  | polled {a : Bool} : l.phase = .polling → (a = true → 0 < l.wakeupFd) →
      Moved l { l with eventHandling := true, phase := .handling a }

  | read : l.phase = .handling true → Moved l { l.handleRead with phase := .handling false }

  | handled : l.phase = .handling false →
      Moved l { l with eventHandling := false, callingPendingFunctors := true, phase := .swapping }

  | swap : l.phase = .swapping →
      Moved l { l with functors := l.pendingFunctors, pendingFunctors := [], phase := .running }

  | ran : l.phase = .running → l.functors = [] →
      Moved l { l with callingPendingFunctors := false, phase := .clearing }

  | cleared : l.phase = .clearing → Moved l { l with phase := .test }

theorem advance_moved (h : l.Coherent) (a : LoopAction) : Yields (l.advance a) (Moved l) := by
  cases a with
  | loop =>
    simp only [advance]
    split
    · next hp =>
      simp only [EventLoop.loop, check_bind_of_true (h.looping_iff.mpr hp)]
      exact yields_pure.mpr (.enter hp)
    · exact yields_pure.mpr .stay
  | testQuit =>
    simp only [advance]
    split
    · next hp =>
      split
      · next hq => exact yields_pure.mpr (.leave hp hq)
      · next hq => exact yields_pure.mpr (.poll hp (by simpa using hq))
    · exact yields_pure.mpr .stay
  | pollReturn a =>
    simp only [advance]
    split
    · next hp => exact yields_pure.mpr (.polled hp.1 hp.2)
    · exact yields_pure.mpr .stay
  | handleRead =>
    simp only [advance]
    split
    · next hp => exact yields_pure.mpr (.read hp)
    · exact yields_pure.mpr .stay
  | handled =>
    simp only [advance]
    split
    · next hp => exact yields_pure.mpr (.handled hp)
    · exact yields_pure.mpr .stay
  | swap =>
    simp only [advance]
    split
    · next hp => exact yields_pure.mpr (.swap hp)
    · exact yields_pure.mpr .stay
  | ran =>
    simp only [advance]
    split
    · next hp => exact yields_pure.mpr (.ran hp.1 hp.2)
    · exact yields_pure.mpr .stay
  | cleared =>
    simp only [advance]
    split
    · next hp => exact yields_pure.mpr (.cleared hp)
    · exact yields_pure.mpr .stay

theorem Moved.coherent {l' : EventLoop F} (h : l.Coherent) (hm : Moved l l') : l'.Coherent := by
  obtain ⟨hl, hc, hf⟩ := h
  cases hm <;> constructor <;> simp_all [EventLoop.handleRead]

/-- The functors still to be run, in the order in which they will be. -/
def todo (l : EventLoop F) : List F := l.functors ++ l.pendingFunctors

@[simp] theorem todo_push (f : F) : (l.push f).todo = l.todo ++ [f] := by
  simp [todo, EventLoop.push]

@[simp] theorem todo_wakeup : l.wakeup.todo = l.todo := rfl

@[simp] theorem todo_queueInLoop (f : F) : (l.queueInLoop f).todo = l.todo ++ [f] := by
  unfold EventLoop.queueInLoop
  dsimp only
  split <;> simp

theorem Moved.todo_eq {l' : EventLoop F} (h : l.Coherent) (hm : Moved l l') :
    l'.todo = l.todo := by
  cases hm with
  | swap hp => simp [todo, h.functors_nil (by rw [hp]; decide)]
  | _ => rfl

end EventLoop

end Dwater
