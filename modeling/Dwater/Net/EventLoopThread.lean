import Dwater.Net.Wakeup

/-! # A thread with an event loop of its own

`ThreadFunc` makes a loop, publishes it in `loop_` and calls `Loop()`. The owner waits
for `loop_` in `StartLoop` and later destroys the object, which quits the loop and joins
the thread. Only that destructor calls `Quit()`. The destructor's `Quit()` may fall between
the publication and the store by which `Loop()` clears `quit_`; it is kept exactly when it
does not.
-/

set_option autoImplicit false
namespace Dwater

open Fallible EventLoop

variable {ι F : Type}

/-- Where the thread is in `ThreadFunc`. -/
inductive ThreadPhase

  /-- `thread_.Start()` has not been called. -/
  | notStarted

  /-- About to construct the loop. -/
  | constructing

  /-- Running `callback_`. -/
  | callback

  /-- About to take the mutex and set `loop_`. -/
  | publishing

  /-- About to call `Loop()`. -/
  | published

  /-- In `Loop()`, or just returned from it. -/
  | looping

  /-- About to take the mutex and clear `loop_`. -/
  | clearing

  /-- Returned, and the loop destroyed. -/
  | finished
  deriving DecidableEq, Repr

/-- Where the owner is. -/
inductive OwnerPhase

  | idle

  /-- In `StartLoop`, waiting for `loop_`. -/
  | starting

  | started

  /-- In the destructor, about to test `loop_`. -/
  | destroying

  /-- In `Quit()`, about to set `quit_`. -/
  | quitting

  /-- In `Quit()`, about to call `Wakeup`. -/
  | waking

  | joining

  /-- Destroyed after the thread was joined. -/
  | joined

  /-- Destroyed with `loop_` found null. -/
  | abandoned
  deriving DecidableEq, Repr

structure EventLoopThread (ι F : Type) where
  loopPtr : Bool
  exiting : Bool
  callback : Bool
  thread : ThreadPhase
  owner : OwnerPhase
  system : LoopSystem ι F
  deriving DecidableEq, Repr

inductive ThreadLabel (ι F : Type)

  /-- Steps of `ThreadFunc`. -/
  | construct

  | callbackReturns

  | publish

  | loop

  | loopReturns

  | clear

  /-- A step inside `Loop()`, or of a thread that queues a functor. -/
  | inLoop (x : LoopLabel ι F)

  /-- Steps of the owner. -/
  | startLoop

  | startLoopReturns

  | destroy

  | testLoop

  | quit

  | wakeup

  | join

namespace EventLoopThread

def new (callback : Bool) : EventLoopThread ι F :=
  { loopPtr := false, exiting := false, callback := callback, thread := .notStarted, owner := .idle,
    system := .new }

def loopAlive (s : EventLoopThread ι F) : Bool :=
  match s.thread with
  | .callback | .publishing | .published | .looping | .clearing => true
  | .notStarted | .constructing | .finished => false

/-- `Loop()` has been called and has not returned. -/
def insideLoop (s : EventLoopThread ι F) : Bool :=
  s.thread = .looping ∧ s.system.loop.phase ≠ .outside

/-- The step can be taken at this point: the loop thread moves and runs functors inside `Loop()`,
it queues functors there and from `callback_`, other threads queue them while the loop exists. -/
def enabled (s : EventLoopThread ι F) : LoopLabel ι F → Bool
  | .act _ | .runFunctor => s.insideLoop
  | .queueInLoop _ => s.thread = .callback || s.insideLoop
  | .push _ _ | .wake _ => s.loopAlive
  | .quitInLoop | .quit _ | .wakeQuit _ => false

def step [DecidableEq ι] (s : EventLoopThread ι F) :
    ThreadLabel ι F → Except Fault (EventLoopThread ι F)
  | .construct =>
    if s.thread = .constructing then
      return { s with system := .new, thread := if s.callback then .callback else .publishing }
    else return s
  | .callbackReturns =>
    if s.thread = .callback then return { s with thread := .publishing } else return s
  | .publish =>
    if s.thread = .publishing then return { s with loopPtr := true, thread := .published }
    else return s
  | .loop =>
    if s.thread = .published then do
      let loop ← s.system.loop.loop
      return { s with system := { s.system with loop := loop }, thread := .looping }
    else return s
  | .loopReturns =>
    if s.thread = .looping ∧ s.system.loop.phase = .outside then
      return { s with thread := .clearing }
    else return s
  | .clear =>
    if s.thread = .clearing then return { s with loopPtr := false, thread := .finished }
    else return s
  | .inLoop x =>
    if s.enabled x then do
      let system ← s.system.step x
      return { s with system := system }
    else return s
  | .startLoop =>
    if s.owner = .idle then do
      check (s.thread = .notStarted) (.assertion .event_loop_thread_cc 31)
      return { s with owner := .starting, thread := .constructing }
    else return s
  | .startLoopReturns =>
    if s.owner = .starting ∧ s.loopPtr = true then return { s with owner := .started }
    else return s
  | .destroy =>
    if s.owner = .started then return { s with owner := .destroying, exiting := true } else return s
  | .testLoop =>
    if s.owner = .destroying then
      return { s with owner := if s.loopPtr then .quitting else .abandoned }
    else return s
  | .quit =>
    if s.owner = .quitting then do
      check (s.loopAlive = true) (.useAfterFree .event_loop_thread_cc 25)
      return { s with
        owner := .waking
        system := { s.system with loop := { s.system.loop with quit := true } } }
    else return s
  | .wakeup =>
    if s.owner = .waking then do
      check (s.loopAlive = true) (.useAfterFree .event_loop_cc 122)
      return { s with
        owner := .joining
        system := { s.system with loop := s.system.loop.wakeup } }
    else return s
  | .join =>
    if s.owner = .joining ∧ s.thread = .finished then return { s with owner := .joined }
    else return s

/-- The store of `Quit()` has been executed. -/
def QuitExecuted (s : EventLoopThread ι F) : Prop :=
  s.owner = .waking ∨ s.owner = .joining ∨ s.owner = .joined

/-- After `Quit()` the loop thread is never in a poll wait with `quit_` false, and a wait that it is
still in ends: the eventfd is readable or about to be written. -/
def QuitKept (s : EventLoopThread ι F) : Prop :=
  s.QuitExecuted → s.system.loop.phase = .polling →
    s.system.loop.quit = true ∧ (s.system.loop.readable ∨ s.owner = .waking)

/-- `Quit()` is executed when `Loop()` has already cleared `quit_`. -/
def QuitsInsideLoop (s : EventLoopThread ι F) : ThreadLabel ι F → Prop
  | .quit => s.owner = .quitting → s.thread ≠ .published
  | _ => True

def Entered (s : EventLoopThread ι F) : Prop :=
  s.thread = .looping ∨ s.thread = .clearing ∨ s.thread = .finished

/-- The owner holds the loop's address only once it was published, and the loop is past its store
to `quit_` when `Quit()` has been executed. -/
structure Inv (s : EventLoopThread ι F) : Prop where
  coherent : s.system.loop.Coherent
  published : s.loopPtr = true ∨ s.owner = .quitting → s.thread = .published ∨ s.Entered
  quit_entered : s.QuitExecuted → s.Entered ∧ s.system.loop.quit = true
  woken : s.QuitExecuted → s.system.loop.phase = .polling →
    s.system.loop.readable ∨ s.owner = .waking

theorem new_inv (callback : Bool) : (new callback : EventLoopThread ι F).Inv := by
  constructor <;> simp [new, LoopSystem.new, new_coherent, QuitExecuted]

theorem Inv.quitKept {s : EventLoopThread ι F} (h : s.Inv) : s.QuitKept :=
  fun hq hp => ⟨(h.quit_entered hq).2, h.woken hq hp⟩

/-- A step that leaves `quit_` alone and enters no wait while it is set. -/
structure KeepsQuit (l l' : EventLoop F) : Prop where
  coherent : l'.Coherent
  quit_eq : l'.quit = l.quit
  polling : l'.phase = .polling → l.quit = true → l.phase = .polling ∧ l.wakeupFd ≤ l'.wakeupFd

theorem KeepsQuit.refl {l : EventLoop F} (hc : l.Coherent) : KeepsQuit l l :=
  ⟨hc, rfl, fun hp _ => ⟨hp, le_rfl⟩⟩

theorem keepsQuit_of_moved {l l' : EventLoop F} (hc : l.Coherent) (hp : l.phase ≠ .outside)
    (hm : Moved l l') : KeepsQuit l l' := by
  refine ⟨hm.coherent hc, ?_, ?_⟩
  · cases hm with
    | enter ho => exact absurd ho hp
    | _ => rfl
  · intro hp' hq
    cases hm with
    | stay => exact ⟨hp', le_rfl⟩
    | poll _ hf => simp [hf] at hq
    | _ => cases hp'

theorem Inv.inLoop {s : EventLoopThread ι F} {t : LoopSystem ι F} (h : s.Inv)
    (hk : KeepsQuit s.system.loop t.loop) : Inv { s with system := t } := by
  refine ⟨hk.coherent, h.published, ?_, ?_⟩
  · intro hq
    exact ⟨(h.quit_entered hq).1, hk.quit_eq.trans (h.quit_entered hq).2⟩
  · intro hq hp
    obtain ⟨hp', hle⟩ := hk.polling hp (h.quit_entered hq).2
    rcases h.woken hq hp' with hr | hw
    · exact .inl (Nat.lt_of_lt_of_le hr hle)
    · exact .inr hw

variable [DecidableEq ι]

theorem inLoop_keepsQuit {s : EventLoopThread ι F} {x : LoopLabel ι F} {t : LoopSystem ι F}
    (hc : s.system.loop.Coherent) (he : s.enabled x = true) (hx : s.system.step x = .ok t) :
    KeepsQuit s.system.loop t.loop := by
  cases x with
  | act a =>
    obtain ⟨l, hl, hm⟩ := advance_moved hc a
    simp only [LoopSystem.step, hl] at hx
    cases hx
    simp only [enabled, insideLoop, decide_eq_true_eq] at he
    exact keepsQuit_of_moved hc he.2 hm
  | runFunctor =>
    simp only [LoopSystem.step] at hx
    split at hx
    · next f l hn =>
      cases hx
      obtain ⟨_, _, hp', _, _, hc'⟩ := hc.nextFunctor hn
      exact ⟨hc', nextFunctor_quit hn, fun hp _ => by simp [hp'] at hp⟩
    · cases hx
      exact .refl hc
  | queueInLoop f =>
    simp only [LoopSystem.step] at hx
    split at hx
    · cases hx
      exact ⟨hc.queueInLoop f, queueInLoop_quit f,
        fun hp _ => ⟨by simpa using hp, le_wakeupFd_queueInLoop f⟩⟩
    · cases hx
      exact .refl hc
  | push t f =>
    cases hx
    exact ⟨hc.push f, rfl, fun hp _ => ⟨hp, le_rfl⟩⟩
  | wake t =>
    simp only [LoopSystem.step] at hx
    split at hx
    · cases hx
      exact ⟨hc.wakeup, rfl, fun hp _ => ⟨hp, Nat.le_succ _⟩⟩
    · cases hx
      exact .refl hc
  | quitInLoop => cases he
  | quit t => cases he
  | wakeQuit t => cases he

omit [DecidableEq ι] in
theorem Inv.unpublished {s : EventLoopThread ι F} (h : s.Inv) (hp : s.thread ≠ .published)
    (he : ¬ s.Entered) : ¬ (s.loopPtr = true ∨ s.owner = .quitting) :=
  fun hl => (h.published hl).elim hp he

omit [DecidableEq ι] in
theorem Inv.not_quitExecuted {s : EventLoopThread ι F} (h : s.Inv) (he : ¬ s.Entered) :
    ¬ s.QuitExecuted :=
  fun hq => he (h.quit_entered hq).1

omit [DecidableEq ι] in
theorem Inv.of_not_quitExecuted {t : EventLoopThread ι F} (hc : t.system.loop.Coherent)
    (hp : t.loopPtr = true ∨ t.owner = .quitting → t.thread = .published ∨ t.Entered)
    (hq : ¬ t.QuitExecuted) : t.Inv :=
  ⟨hc, hp, fun hq' => absurd hq' hq, fun hq' => absurd hq' hq⟩

omit [DecidableEq ι] in
/-- Until the loop is published nobody holds its address, whatever its thread does. -/
theorem Inv.beforePublished {s : EventLoopThread ι F} (h : s.Inv) (hp : s.thread ≠ .published)
    (he : ¬ s.Entered) {l : LoopSystem ι F} (hl : l.loop.Coherent) (phase : ThreadPhase) :
    Inv { s with thread := phase, system := l } :=
  .of_not_quitExecuted hl (fun ha => absurd ha (h.unpublished hp he)) (h.not_quitExecuted he)

section Steps

variable {s : EventLoopThread ι F}

omit [DecidableEq ι]

theorem Inv.publish (h : s.Inv) (hp : s.thread = .publishing) :
    Inv { s with loopPtr := true, thread := .published } := by
  have hq := h.not_quitExecuted (by simp [Entered, hp])
  exact .of_not_quitExecuted h.coherent (fun _ => .inl rfl) hq

theorem Inv.loop (h : s.Inv) (hp : s.thread = .published) {l : EventLoop F}
    (hl : s.system.loop.loop = .ok l) :
    Inv { s with system := { s.system with loop := l }, thread := .looping } := by
  have hq := h.not_quitExecuted (by simp [Entered, hp])
  obtain ⟨hlooping, hl⟩ := check_bind_eq_ok hl
  cases hl
  have hm : Moved s.system.loop { s.system.loop with
      looping := true, quit := false, phase := .test } :=
    .enter (h.coherent.looping_iff.mp hlooping)
  exact .of_not_quitExecuted (hm.coherent h.coherent) (fun _ => .inr (.inl rfl)) hq

theorem Inv.loopReturns (h : s.Inv) : Inv { s with thread := .clearing } :=
  ⟨h.coherent, fun _ => .inr (.inr (.inl rfl)),
    fun hq => ⟨.inr (.inl rfl), (h.quit_entered hq).2⟩, h.woken⟩

theorem Inv.clear (h : s.Inv) : Inv { s with loopPtr := false, thread := .finished } :=
  ⟨h.coherent, fun _ => .inr (.inr (.inr rfl)),
    fun hq => ⟨.inr (.inr rfl), (h.quit_entered hq).2⟩, h.woken⟩

theorem Inv.startLoop (h : s.Inv) (hns : s.thread = .notStarted) :
    Inv { s with owner := .starting, thread := .constructing } := by
  have hpub := h.unpublished (by simp [hns]) (by simp [Entered, hns])
  apply Inv.of_not_quitExecuted
  · exact h.coherent
  · rintro (hl | ho)
    · exact absurd (.inl hl) hpub
    · cases ho
  · simp [QuitExecuted]

theorem Inv.startLoopReturns (h : s.Inv) (hl : s.loopPtr = true) :
    Inv { s with owner := .started } :=
  .of_not_quitExecuted h.coherent (fun _ => h.published (.inl hl)) (by simp [QuitExecuted])

theorem Inv.destroy (h : s.Inv) : Inv { s with owner := .destroying, exiting := true } := by
  apply Inv.of_not_quitExecuted
  · exact h.coherent
  · rintro (hl | ho)
    · exact h.published (.inl hl)
    · cases ho
  · simp [QuitExecuted]

theorem Inv.testLoop (h : s.Inv) :
    Inv { s with owner := if s.loopPtr then .quitting else .abandoned } := by
  cases hl : s.loopPtr with
  | false => exact .of_not_quitExecuted h.coherent (by simp) (by simp [QuitExecuted])
  | true =>
    exact .of_not_quitExecuted h.coherent (fun _ => h.published (.inl hl)) (by simp [QuitExecuted])

theorem Inv.quit (h : s.Inv) (hp : s.owner = .quitting) (hpub : s.thread ≠ .published) :
    Inv { s with
      owner := .waking
      system := { s.system with loop := { s.system.loop with quit := true } } } := by
  have hent : s.Entered := (h.published (.inr hp)).resolve_left hpub
  exact ⟨h.coherent.quit, fun _ => .inr hent, fun _ => ⟨hent, rfl⟩, fun _ _ => .inr rfl⟩

theorem Inv.wakeup (h : s.Inv) (hp : s.owner = .waking) :
    Inv { s with
      owner := .joining
      system := { s.system with loop := s.system.loop.wakeup } } := by
  have hq := h.quit_entered (.inl hp)
  exact ⟨h.coherent.wakeup, fun _ => .inr hq.1, fun _ => hq, fun _ _ => .inl (Nat.succ_pos _)⟩

theorem Inv.join (h : s.Inv) (hp : s.owner = .joining) : Inv { s with owner := .joined } := by
  have hq := h.quit_entered (.inr (.inl hp))
  refine ⟨h.coherent, fun _ => .inr hq.1, fun _ => hq, ?_⟩
  intro _ hpoll
  have hw := h.woken (.inr (.inl hp)) hpoll
  exact .inl (hw.resolve_right (by simp [hp]))

end Steps

theorem step_inv (s : EventLoopThread ι F) (x : ThreadLabel ι F) (t : EventLoopThread ι F)
    (h : s.Inv) (hx : s.QuitsInsideLoop x) (ht : s.step x = .ok t) : t.Inv := by
  cases x with
  | construct =>
    obtain ⟨hp, ⟨⟩⟩ | rfl := ite_eq_ok ht
    · exact h.beforePublished (by simp [hp]) (by simp [Entered, hp]) new_coherent _
    · exact h
  | callbackReturns =>
    obtain ⟨hp, ⟨⟩⟩ | rfl := ite_eq_ok ht
    · exact h.beforePublished (by simp [hp]) (by simp [Entered, hp]) h.coherent _
    · exact h
  | publish =>
    obtain ⟨hp, ⟨⟩⟩ | rfl := ite_eq_ok ht
    · exact h.publish hp
    · exact h
  | loop =>
    obtain ⟨hp, ht⟩ | rfl := ite_eq_ok ht
    · obtain ⟨l, hl, ⟨⟩⟩ := bind_eq_ok ht
      exact h.loop hp hl
    · exact h
  | loopReturns =>
    obtain ⟨-, ⟨⟩⟩ | rfl := ite_eq_ok ht
    · exact h.loopReturns
    · exact h
  | clear =>
    obtain ⟨-, ⟨⟩⟩ | rfl := ite_eq_ok ht
    · exact h.clear
    · exact h
  | inLoop y =>
    obtain ⟨he, ht⟩ | rfl := ite_eq_ok ht
    · obtain ⟨u, hu, ⟨⟩⟩ := bind_eq_ok ht
      exact h.inLoop (inLoop_keepsQuit h.coherent he hu)
    · exact h
  | startLoop =>
    obtain ⟨-, ht⟩ | rfl := ite_eq_ok ht
    · obtain ⟨hns, ⟨⟩⟩ := check_bind_eq_ok ht
      exact h.startLoop hns
    · exact h
  | startLoopReturns =>
    obtain ⟨hp, ⟨⟩⟩ | rfl := ite_eq_ok ht
    · exact h.startLoopReturns hp.2
    · exact h
  | destroy =>
    obtain ⟨-, ⟨⟩⟩ | rfl := ite_eq_ok ht
    · exact h.destroy
    · exact h
  | testLoop =>
    obtain ⟨-, ⟨⟩⟩ | rfl := ite_eq_ok ht
    · exact h.testLoop
    · exact h
  | quit =>
    obtain ⟨hp, ht⟩ | rfl := ite_eq_ok ht
    · obtain ⟨-, ⟨⟩⟩ := check_bind_eq_ok ht
      exact h.quit hp (hx hp)
    · exact h
  | wakeup =>
    obtain ⟨hp, ht⟩ | rfl := ite_eq_ok ht
    · obtain ⟨-, ⟨⟩⟩ := check_bind_eq_ok ht
      exact h.wakeup hp
    · exact h
  | join =>
    obtain ⟨hp, ⟨⟩⟩ | rfl := ite_eq_ok ht
    · exact h.join hp.1
    · exact h

/-- When `Quit()` is executed only after `Loop()` has cleared `quit_`, it is never lost. -/
theorem quit_not_lost (callback : Bool) (labels : List (ThreadLabel ι F))
    (h : Along step QuitsInsideLoop (new callback) labels) (s : EventLoopThread ι F)
    (hs : run step (new callback) labels = .ok s) : s.QuitKept :=
  (reached_invariant step_inv (new_inv callback) h hs).quitKept

/-- A `Quit()` while the loop waits in its first poll. -/
theorem quit_not_lost_while_polling :
    ∃ s : EventLoopThread Unit Unit, run step (new false) [.startLoop, .construct, .publish,
      .startLoopReturns, .loop, .inLoop (.act .testQuit), .destroy, .testLoop, .quit, .wakeup] =
        .ok s ∧ s.QuitExecuted ∧ s.system.loop.phase = .polling ∧ s.QuitKept := by
  refine ⟨_, rfl, .inr (.inl rfl), rfl, ?_⟩
  refine quit_not_lost false [.startLoop, .construct, .publish, .startLoopReturns, .loop,
    .inLoop (.act .testQuit), .destroy, .testLoop, .quit, .wakeup] ?_ _ rfl
  iterate 8 refine along_cons trivial rfl ?_
  refine along_cons (fun _ => ?_) rfl (along_cons trivial rfl trivial)
  decide

/-- A `Quit()` between the publication of `loop_` and the store of `Loop()` to `quit_` is lost: the
loop waits with `quit_` false while the destructor joins. -/
theorem quit_lost_before_loop :
    ∃ s : EventLoopThread Unit Unit, run step (new false) [.startLoop, .construct, .publish,
      .startLoopReturns, .destroy, .testLoop, .quit, .wakeup, .loop, .inLoop (.act .testQuit)] =
        .ok s ∧ s.QuitExecuted ∧ s.system.loop.phase = .polling ∧ s.system.loop.quit = false :=
  ⟨_, rfl, .inr (.inl rfl), rfl, rfl⟩

end EventLoopThread

end Dwater
