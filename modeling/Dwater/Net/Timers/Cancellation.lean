import Dwater.Lib.Prerequisites
import Dwater.Net.FunctorOrder
import Dwater.Net.Timers.Handles

/-! # Adding and cancelling timers from any thread

`AddTimer` and `Cancel` go through `RunInLoop`, which queues a functor when another thread
calls and runs it at once when the loop thread calls. The functors run in the order of their
pushes, so the `CancelInLoop` of another thread comes after the `AddTimerInLoop` that it
cancels. That of the loop thread comes at once, and overtakes an `AddTimerInLoop` that is
still queued. Behind its `RunInLoop`, `AddTimer` reads the sequence number of a Timer that
the loop may have deleted by then, or another one put at its address.
-/

set_option autoImplicit false
namespace Dwater

open Fallible EventLoop Prerequisites

inductive TimerFunctor
  | addTimerInLoop (h : TimerHandle)
  | cancelInLoop (h : TimerHandle)

  /-- any other functor; the timers it adds and cancels are calls of the loop thread -/
  | user
  deriving DecidableEq, Repr

/--
An event loop with its timer queue. `adding` holds the calls of `AddTimer` by other threads that
have created their Timer and not yet queued it, `returning` those that have queued it and not yet
read its sequence number, `returned` the ids that calls have returned, each with the number of the
Timer it names, and `ran` what the loop thread has called, in order.
-/
structure TimerLoop (ι : Type) where
  system : LoopSystem ι TimerFunctor
  queue : TimerQueue
  adding : List (ι × TimerHandle)
  returning : List (ι × TimerPtr)
  returned : List TimerHandle
  ran : List TimerFunctor

inductive TimerLoopLabel (ι : Type)

  /-- the loop thread goes on in `Loop()` -/
  | act (a : LoopAction)

  | runFunctor
  | queueInLoop (thread : LoopThread ι)
  | wake (t : ι)
  | quit (thread : LoopThread ι)
  | wakeQuit (t : ι)
  | tick (now : Timestamp)
  | handleRead (readAt : Timestamp)
  | runCallback
  | finishRead

  /-- `AddTimer` by the loop thread -/
  | addTimer (timer : TimerPtr) (when : Timestamp) (interval : Seconds)

  /-- `AddTimer` by another thread up to `RunInLoop` -/
  | newTimer (t : ι) (timer : TimerPtr) (when : Timestamp) (interval : Seconds)

  /-- the `RunInLoop` of such a call, up to its `Wakeup` -/
  | queueAdd (t : ι) (h : TimerHandle)

  /-- `timer->Sequence()` at the end of such a call -/
  | readSequence (t : ι) (timer : TimerPtr)

  /-- `Cancel` of an id that `AddTimer` has returned -/
  | cancel (thread : LoopThread ι) (h : TimerHandle)

namespace LoopSystem

variable {ι F : Type} [DecidableEq ι] {s : LoopSystem ι F}

def queues (s : LoopSystem ι F) : LoopLabel ι F → List F
  | .push _ f => [f]
  | .queueInLoop f => if s.loop.runsUserCode then [f] else []
  | _ => []

theorem step_todo (hc : s.loop.Coherent) {x : LoopLabel ι F} (hx : x ≠ .runFunctor) :
    Yields (s.step x) fun s' => s'.loop.Coherent ∧ s'.loop.todo = s.loop.todo ++ s.queues x := by
  have hsame : ∀ {s' : LoopSystem ι F}, s'.loop.Coherent → s'.loop.todo = s.loop.todo →
      s'.loop.Coherent ∧ s'.loop.todo = s.loop.todo ++ [] := by
    intro s' hc' htodo
    exact ⟨hc', htodo.trans (List.append_nil _).symm⟩
  cases x with
  | act a =>
    refine yields_bind (advance_moved hc a) fun l hl => yields_pure.mpr ?_
    exact hsame (hl.coherent hc) (hl.todo_eq hc)
  | runFunctor => exact absurd rfl hx
  | queueInLoop f =>
    simp only [step, queues]
    split
    · exact yields_pure.mpr ⟨hc.queueInLoop f, todo_queueInLoop f⟩
    · exact yields_pure.mpr (hsame hc rfl)
  | quitInLoop =>
    simp only [step]
    split
    · exact yields_pure.mpr (hsame hc.quit rfl)
    · exact yields_pure.mpr (hsame hc rfl)
  | push t f => exact yields_pure.mpr ⟨hc.push f, todo_push f⟩
  | wake t =>
    simp only [step]
    split
    · exact yields_pure.mpr (hsame hc.wakeup rfl)
    · exact yields_pure.mpr (hsame hc rfl)
  | quit t => exact yields_pure.mpr (hsame hc.quit rfl)
  | wakeQuit t =>
    simp only [step]
    split
    · exact yields_pure.mpr (hsame hc.wakeup rfl)
    · exact yields_pure.mpr (hsame hc rfl)

end LoopSystem

namespace TimerLoop

variable {ι : Type} [DecidableEq ι]

def new (now : Timestamp) : TimerLoop ι := ⟨.new, .new now, [], [], [], []⟩

def call (s : TimerLoop ι) (f : TimerFunctor) : Except Fault (TimerLoop ι) := do
  let queue ←
    match f with
    | .addTimerInLoop h => s.queue.step (.addTimerInLoop h.timerId.timer)
    | .cancelInLoop h => s.queue.step (.cancelInLoop h.timerId)
    | .user => pure s.queue
  return { s with queue := queue, ran := s.ran ++ [f] }

def runInLoop (s : TimerLoop ι) (f : TimerFunctor) : LoopThread ι → Except Fault (TimerLoop ι)
  | .loop => s.call f
  | .other t => do return { s with system := ← s.system.step (.push t f) }

/-- The thread is able to call a method of the loop. -/
def runsUserCode (s : TimerLoop ι) : LoopThread ι → Bool
  | .loop => s.system.loop.runsUserCode
  | .other _ => true

def queueStep (s : TimerLoop ι) (l : TimerLabel) : Except Fault (TimerLoop ι) := do
  return { s with queue := ← s.queue.step l }

def systemStep (s : TimerLoop ι) (x : LoopLabel ι TimerFunctor) : Except Fault (TimerLoop ι) := do
  return { s with system := ← s.system.step x }

def step (s : TimerLoop ι) : TimerLoopLabel ι → Except Fault (TimerLoop ι)
  | .act a => if s.queue.batch = none then s.systemStep (.act a) else return s
  | .runFunctor =>
    match s.system.loop.nextFunctor with
    | some (f, loop) => call { s with system := { s.system with loop := loop } } f
    | none => return s
  | .queueInLoop .loop => s.systemStep (.queueInLoop .user)
  | .queueInLoop (.other t) => s.systemStep (.push t .user)
  | .wake t => s.systemStep (.wake t)
  | .quit .loop => s.systemStep .quitInLoop
  | .quit (.other t) => s.systemStep (.quit t)
  | .wakeQuit t => s.systemStep (.wakeQuit t)
  | .tick now => s.queueStep (.tick now)
  | .handleRead readAt =>
    if s.system.loop.eventHandling then s.queueStep (.handleRead readAt) else return s
  | .runCallback => s.queueStep .runCallback
  | .finishRead => s.queueStep .finishRead
  | .addTimer timer when interval =>
    if s.system.loop.runsUserCode ∧ s.queue.heap.get timer = none ∧ timer ≠ uintptrMax then do
      let queue ← s.queue.step (.newTimer timer when interval)
      let h := s.queue.handle timer
      runInLoop { s with queue := queue, returned := h :: s.returned } (.addTimerInLoop h) .loop
    else return s
  | .newTimer t timer when interval =>
    if s.queue.heap.get timer = none ∧ timer ≠ uintptrMax then do
      let queue ← s.queue.step (.newTimer timer when interval)
      return { s with queue := queue, adding := (t, s.queue.handle timer) :: s.adding }
    else return s
  | .queueAdd t h =>
    if (t, h) ∈ s.adding then
      runInLoop { s with
        adding := s.adding.erase (t, h)
        returning := (t, h.timerId.timer) :: s.returning } (.addTimerInLoop h) (.other t)
    else return s
  | .readSequence t timer =>
    if (t, timer) ∈ s.returning ∧ t ∉ s.system.wakers then
      -- the id is that of whatever Timer has the address now
      match s.queue.heap.cell timer with
      | some (number, found) => return { s with
          returning := s.returning.erase (t, timer)
          returned := ⟨number, ⟨timer, found.sequence⟩⟩ :: s.returned }
      | none => throw (.useAfterFree .timer_queue_cc 110)
    else return s
  | .cancel thread h =>
    if s.runsUserCode thread ∧ h ∈ s.returned then s.runInLoop (.cancelInLoop h) thread
    else return s

/-- The functors that the loop thread has called, is about to call and will call. -/
def calls (s : TimerLoop ι) (now : List TimerFunctor) : List TimerFunctor :=
  s.ran ++ now ++ s.system.loop.todo

/-- Every `CancelInLoop`, run or still queued, comes after the `AddTimerInLoop` of the Timer. -/
def CancelsFollowAdds (s : TimerLoop ι) : Prop :=
  ∀ before h after, s.calls [] = before ++ .cancelInLoop h :: after → .addTimerInLoop h ∈ before

/-- No Timer whose `CancelInLoop` has run is scheduled. -/
def NoneLeftScheduled (s : TimerLoop ι) : Prop :=
  ∀ h, .cancelInLoop h ∈ s.ran → ¬ s.queue.At h.number .scheduled

/--
The loop thread does not cancel a Timer whose `AddTimerInLoop` is queued or still to be queued, no
other thread one whose `AddTimerInLoop` is still to be queued, and `AddTimer` finds a Timer where
it reads the sequence number.
-/
def CancelsAdded (s : TimerLoop ι) : TimerLoopLabel ι → Prop
  | .cancel .loop h =>
    s.system.loop.runsUserCode = true → h ∈ s.returned →
      .addTimerInLoop h ∉ s.system.loop.functors ++ s.system.loop.pendingFunctors ∧
        h ∉ s.adding.map Prod.snd
  | .cancel (.other _) h => h ∈ s.returned → h ∉ s.adding.map Prod.snd
  | .readSequence t timer => (t, timer) ∈ s.returning → t ∉ s.system.wakers →
      s.queue.heap.cell timer ≠ none
  | _ => True

def Needs (f g : TimerFunctor) : Prop := ∃ h, f = .cancelInLoop h ∧ g = .addTimerInLoop h

def addOf : TimerFunctor → Option TimerHandle
  | .addTimerInLoop h => some h
  | _ => none

/-- The Timers still to be added, when the loop thread is about to call the functors of `now`. -/
def toAdd (s : TimerLoop ι) (now : List TimerFunctor) : List TimerHandle :=
  (now ++ s.system.loop.todo).filterMap addOf ++ s.adding.map Prod.snd

/-- The `AddTimerInLoop` of the Timer has run, is queued or will be. -/
def Known (s : TimerLoop ι) (now : List TimerFunctor) (h : TimerHandle) : Prop :=
  .addTimerInLoop h ∈ s.calls now ∨ h ∈ s.adding.map Prod.snd

/-- The queue is in order, every Timer created is added once, and every cancellation comes after
its addition. -/
structure Kept (s : TimerLoop ι) (now : List TimerFunctor) : Prop where
  coherent : s.system.loop.Coherent
  queue : ∃ scheduled, s.queue.Inv scheduled
  flagged : s.queue.BatchFlagged
  unadded : ∀ h ∈ s.toAdd now, s.queue.Unadded h
  nodup : (s.toAdd now).Nodup
  added : ∀ h, .addTimerInLoop h ∈ s.ran → s.queue.Added h
  ordered : Supported Needs [] (s.calls now)
  doomed : ∀ h, .cancelInLoop h ∈ s.ran → s.queue.Doomed h.number

/-- The ids returned, and those that reading a Timer now would give, are of Timers that have been
added or will be. -/
structure Inv (s : TimerLoop ι) (now : List TimerFunctor) : Prop extends s.Kept now where
  returned : ∀ h ∈ s.returned, s.Known now h
  live : ∀ {p n t}, s.queue.heap.cell p = some (n, t) → s.Known now ⟨n, ⟨p, t.sequence⟩⟩

section Inv

variable {s s' : TimerLoop ι} {now : List TimerFunctor} {f : TimerFunctor} {h : TimerHandle}
  {q : TimerQueue}

omit [DecidableEq ι]

theorem new_inv (now : Timestamp) : (new now : TimerLoop ι).Inv [] where
  coherent := new_coherent
  queue := ⟨∅, TimerQueue.new_inv now⟩
  flagged := rfl
  unadded h hh := by cases hh
  nodup := List.nodup_nil
  added h hh := by cases hh
  ordered := trivial
  doomed h hh := by cases hh
  returned h hh := by cases hh
  live hc := by cases hc

theorem Kept.cancelsFollowAdds (hi : s.Kept []) : s.CancelsFollowAdds :=
  fun _ h _ hcalls => hi.ordered.before hcalls ⟨h, rfl, rfl⟩

theorem Kept.mem_ran (hi : s.Kept now) (hm : .cancelInLoop h ∈ s.ran) :
    .addTimerInLoop h ∈ s.ran := by
  obtain ⟨before, after, hran⟩ := List.append_of_mem hm
  have hordered := hi.ordered
  rw [calls, List.append_assoc] at hordered
  have hbefore := (supported_append.mp hordered).1.before hran ⟨h, rfl, rfl⟩
  rw [hran]
  exact List.mem_append_left _ hbefore

theorem Kept.noneLeftScheduled (hi : s.Kept now) : s.NoneLeftScheduled := by
  intro h hm
  obtain ⟨scheduled, hq⟩ := hi.queue
  exact (hi.doomed h hm).not_scheduled hq

theorem Inv.live_of_evolves (hi : s.Inv now) {l : TimerLabel} (he : TimerQueue.Evolves l s.queue q)
    (hl : ∀ timer when interval, l ≠ .newTimer timer when interval) {p : TimerPtr} {n : ℕ}
    {t' : Timer} (hc : q.heap.cell p = some (n, t')) : s.Known now ⟨n, ⟨p, t'.sequence⟩⟩ := by
  obtain ⟨t, hc, hseq⟩ := he.cell_old hc (he.created_eq hl ▸ q.heap.sound.cell_lt hc)
  rw [← hseq]
  exact hi.live hc

theorem Kept.evolve (hi : s.Kept now) {l : TimerLabel} (hq : s.queue.step l = .ok q)
    (hl : ∀ h ∈ s.toAdd now, l ≠ .addTimerInLoop h.timerId.timer) :
    Kept { s with queue := q } now := by
  obtain ⟨scheduled, hinv⟩ := hi.queue
  have he := TimerQueue.step_evolves hinv hq
  constructor
  · exact hi.coherent
  · exact (TimerQueue.step_inv _ l hi.queue).of_eq hq
  · exact TimerQueue.step_batchFlagged hinv hi.flagged hq
  · exact fun h hh => (hi.unadded h hh).evolves he (hl h hh)
  · exact hi.nodup
  · exact fun h hh => (hi.added h hh).evolves he
  · exact hi.ordered
  · intro h hm
    have ha := hi.added h (hi.mem_ran hm)
    exact he.doomed_kept ha.refers.lt_created (hi.doomed h hm)

theorem Inv.evolve (hi : s.Inv now) {l : TimerLabel} (hq : s.queue.step l = .ok q)
    (hl : ∀ h ∈ s.toAdd now, l ≠ .addTimerInLoop h.timerId.timer)
    (hnew : ∀ timer when interval, l ≠ .newTimer timer when interval) :
    Inv { s with queue := q } now := by
  obtain ⟨scheduled, hinv⟩ := hi.queue
  exact ⟨hi.toKept.evolve hq hl, hi.returned,
    hi.live_of_evolves (TimerQueue.step_evolves hinv hq) hnew⟩

theorem Inv.requeue (hi : s.Inv now) (fs : List TimerFunctor) (hc : s'.system.loop.Coherent)
    (hqueue : s'.queue = s.queue) (hran : s'.ran = s.ran)
    (htodo : s'.system.loop.todo = s.system.loop.todo ++ fs)
    (hfs : Supported Needs (s.calls now) fs) (hadd : (s'.toAdd now).Perm (s.toAdd now))
    (hadding : ∀ h ∈ s.adding.map Prod.snd, h ∈ s'.adding.map Prod.snd ∨ .addTimerInLoop h ∈ fs)
    (hret : s'.returned = s.returned) : s'.Inv now := by
  have hcalls : s'.calls now = s.calls now ++ fs := by
    simp [calls, hran, htodo]
  have hknown : ∀ {h}, s.Known now h → s'.Known now h := by
    intro h hk
    rw [Known, hcalls]
    rcases hk with hk | hk
    · exact .inl (List.mem_append_left _ hk)
    · exact (hadding h hk).symm.imp_left (List.mem_append_right _)
  refine ⟨?_, fun h hh => hknown (hi.returned h (hret ▸ hh)), fun hc => hknown (hi.live ?_)⟩
  swap
  · rwa [hqueue] at hc
  constructor
  · exact hc
  · rw [hqueue]
    exact hi.queue
  · rw [hqueue]
    exact hi.flagged
  · intro h hh
    rw [hqueue]
    exact hi.unadded h (hadd.mem_iff.mp hh)
  · exact hadd.nodup_iff.mpr hi.nodup
  · rw [hran, hqueue]
    exact hi.added
  · rw [hcalls]
    exact supported_append.mpr ⟨hi.ordered, hfs⟩
  · rw [hran, hqueue]
    exact hi.doomed

theorem Inv.called (hi : s.Inv [f]) {l : TimerLabel} (hinv : ∃ scheduled, q.Inv scheduled)
    (hflagged : q.BatchFlagged) (he : TimerQueue.Evolves l s.queue q)
    (hl : ∀ h ∈ s.toAdd [], l ≠ .addTimerInLoop h.timerId.timer)
    (hnew : ∀ timer when interval, l ≠ .newTimer timer when interval)
    (hadded : ∀ h, f = .addTimerInLoop h → q.Added h)
    (hdoomed : ∀ h, f = .cancelInLoop h → q.Doomed h.number) :
    Inv { s with queue := q, ran := s.ran ++ [f] } [] := by
  have hcalls : calls { s with queue := q, ran := s.ran ++ [f] } [] = s.calls [f] := by
    simp [calls]
  have hsub : List.Sublist (s.toAdd []) (s.toAdd [f]) := by
    refine List.Sublist.append_right ?_ _
    exact List.Sublist.filterMap addOf (List.sublist_cons_self f _)
  have hknown : ∀ {h}, s.Known [f] h →
      Known { s with queue := q, ran := s.ran ++ [f] } [] h := by
    intro h hk
    rwa [Known, hcalls]
  refine ⟨?_, fun h hh => hknown (hi.returned h hh),
    fun hc => hknown (hi.live_of_evolves he hnew hc)⟩
  constructor
  · exact hi.coherent
  · exact hinv
  · exact hflagged
  · intro h hh
    exact (hi.unadded h (hsub.subset hh)).evolves he (hl h hh)
  · exact hi.nodup.sublist hsub
  · intro h hh
    rcases List.mem_append.mp hh with hold | hnew
    · exact (hi.added h hold).evolves he
    · exact hadded h (List.mem_singleton.mp hnew).symm
  · rw [hcalls]
    exact hi.ordered
  · intro h hh
    rcases List.mem_append.mp hh with hold | hnew
    · have ha := hi.added h (hi.mem_ran hold)
      exact he.doomed_kept ha.refers.lt_created (hi.doomed h hold)
    · exact hdoomed h (List.mem_singleton.mp hnew).symm

theorem Inv.call_addTimerInLoop (hi : s.Inv [.addTimerInLoop h]) :
    Yields (s.call (.addTimerInLoop h)) (Inv · []) := by
  obtain ⟨scheduled, hinv⟩ := hi.queue
  have hadd : s.toAdd [.addTimerInLoop h] = h :: s.toAdd [] := rfl
  have hu : s.queue.Unadded h := hi.unadded h (hadd ▸ List.mem_cons_self)
  have hnew : h ∉ s.toAdd [] := (List.nodup_cons.mp (hadd ▸ hi.nodup)).1
  obtain ⟨q, hq, hq'⟩ := TimerQueue.step_inv _ (.addTimerInLoop h.timerId.timer) hi.queue
  refine yields_bind ⟨q, hq, rfl⟩ ?_
  rintro _ rfl
  refine yields_pure.mpr (hi.called hq' (TimerQueue.step_batchFlagged hinv hi.flagged hq)
    (TimerQueue.step_evolves hinv hq) ?_ (by simp) ?_ ?_)
  · intro h' hh' heq
    have hu' := hi.unadded h' (hadd ▸ List.mem_cons_of_mem h hh')
    cases hu.eq_of_timer hu' (TimerLabel.addTimerInLoop.inj heq)
    exact hnew hh'
  · rintro h' ⟨⟩
    exact hu.addTimerInLoop hinv hq
  · rintro h' ⟨⟩

theorem Inv.call_cancelInLoop (hi : s.Inv [.cancelInLoop h]) :
    Yields (s.call (.cancelInLoop h)) (Inv · []) := by
  obtain ⟨scheduled, hinv⟩ := hi.queue
  have hmem : .addTimerInLoop h ∈ s.ran := by
    have hordered := hi.ordered
    rw [calls, List.append_assoc] at hordered
    exact hordered.before rfl ⟨h, rfl, rfl⟩
  obtain ⟨q, hq, hq'⟩ := TimerQueue.step_inv _ (.cancelInLoop h.timerId) hi.queue
  refine yields_bind ⟨q, hq, rfl⟩ ?_
  rintro _ rfl
  refine yields_pure.mpr (hi.called hq' (TimerQueue.step_batchFlagged hinv hi.flagged hq)
    (TimerQueue.step_evolves hinv hq) ?_ (by simp) ?_ ?_)
  · rintro h' - ⟨⟩
  · rintro h' ⟨⟩
  · rintro h' ⟨⟩
    exact (hi.added h hmem).cancelInLoop hinv hi.flagged hq

theorem Inv.call (hi : s.Inv [f]) : Yields (s.call f) (Inv · []) := by
  cases f with
  | addTimerInLoop h => exact hi.call_addTimerInLoop
  | cancelInLoop h => exact hi.call_cancelInLoop
  | user =>
    refine yields_pure.mpr (hi.called (l := .runCallback) hi.queue hi.flagged
      (TimerQueue.evolves_of_eq rfl rfl rfl subset_rfl) ?_ (by simp) ?_ ?_)
    · rintro h' - ⟨⟩
    · rintro h' ⟨⟩
    · rintro h' ⟨⟩

theorem Inv.queueStep (hi : s.Inv []) {l : TimerLabel} (hl : ∀ p, l ≠ .addTimerInLoop p)
    (hnew : ∀ timer when interval, l ≠ .newTimer timer when interval) :
    Yields (s.queueStep l) (Inv · []) := by
  obtain ⟨q, hq, -⟩ := TimerQueue.step_inv _ l hi.queue
  refine yields_bind ⟨q, hq, rfl⟩ ?_
  rintro _ rfl
  exact yields_pure.mpr (hi.evolve hq (fun h _ => hl _) hnew)

theorem Inv.runFunctor (hi : s.Inv []) {f : TimerFunctor} {l : EventLoop TimerFunctor}
    (hn : s.system.loop.nextFunctor = some (f, l)) :
    Yields (TimerLoop.call { s with system := { s.system with loop := l } } f) (Inv · []) := by
  obtain ⟨-, hf, -, hp, -, hc⟩ := hi.coherent.nextFunctor hn
  have htodo : [f] ++ l.todo = s.system.loop.todo := by
    simp [todo, hf, hp]
  have hcalls : calls { s with system := { s.system with loop := l } } [f] = s.calls [] := by
    simp [calls, ← htodo]
  have hadd : toAdd { s with system := { s.system with loop := l } } [f] = s.toAdd [] := by
    simp only [toAdd, htodo, List.nil_append]
  have hknown : ∀ {h}, s.Known [] h →
      Known { s with system := { s.system with loop := l } } [f] h := by
    intro h hk
    rwa [Known, hcalls]
  refine Inv.call ⟨?_, fun h hh => hknown (hi.returned h hh), fun hc => hknown (hi.live hc)⟩
  constructor
  · exact hc
  · exact hi.queue
  · exact hi.flagged
  · rw [hadd]
    exact hi.unadded
  · rw [hadd]
    exact hi.nodup
  · exact hi.added
  · rw [hcalls]
    exact hi.ordered
  · exact hi.doomed

end Inv

section Steps

variable {s : TimerLoop ι} {h : TimerHandle}

theorem Inv.systemStep (hi : s.Inv []) {x : LoopLabel ι TimerFunctor} (hx : x ≠ .runFunctor)
    (huser : ∀ f ∈ s.system.queues x, f = .user) : Yields (s.systemStep x) (Inv · []) := by
  obtain ⟨system, hstep, hc, htodo⟩ := LoopSystem.step_todo hi.coherent hx
  refine yields_bind ⟨system, hstep, rfl⟩ ?_
  rintro _ rfl
  have hnone : (s.system.queues x).filterMap addOf = [] := by
    rw [List.filterMap_eq_nil_iff]
    intro f hf
    rw [huser f hf]
    rfl
  have hfs : Supported Needs (s.calls []) (s.system.queues x) := by
    refine supported_of_free ?_
    rintro f hf g ⟨h, rfl, -⟩
    cases huser _ hf
  refine yields_pure.mpr (hi.requeue (s.system.queues x) hc rfl rfl htodo hfs ?_ ?_ rfl)
  · simp [toAdd, htodo, hnone]
  · exact fun h hh => .inl hh

theorem Inv.cancel_other (hi : s.Inv []) (t : ι) (hh : h ∈ s.returned)
    (hnot : h ∉ s.adding.map Prod.snd) :
    Yields (s.runInLoop (.cancelInLoop h) (.other t)) (Inv · []) := by
  obtain ⟨system, hstep, hc, htodo⟩ := LoopSystem.step_todo hi.coherent
    (x := .push t (.cancelInLoop h)) (by simp)
  refine yields_bind ⟨system, hstep, rfl⟩ ?_
  rintro _ rfl
  refine yields_pure.mpr (hi.requeue [.cancelInLoop h] hc rfl rfl htodo ?_ ?_ ?_ rfl)
  · refine ⟨?_, trivial⟩
    rintro g ⟨h', heq, rfl⟩
    cases heq
    exact (hi.returned h hh).resolve_right hnot
  · have hnone : (s.system.queues (.push t (.cancelInLoop h))).filterMap addOf = [] := rfl
    simp [toAdd, htodo, hnone]
  · exact fun h hh => .inl hh

theorem Inv.queueAdd (hi : s.Inv []) {t : ι} (hh : (t, h) ∈ s.adding) :
    Yields (runInLoop { s with
        adding := s.adding.erase (t, h)
        returning := (t, h.timerId.timer) :: s.returning } (.addTimerInLoop h) (.other t))
      (Inv · []) := by
  obtain ⟨system, hstep, hc, htodo⟩ := LoopSystem.step_todo hi.coherent
    (x := .push t (.addTimerInLoop h)) (by simp)
  refine yields_bind ⟨system, hstep, rfl⟩ ?_
  rintro _ rfl
  have hperm : (s.adding.map Prod.snd).Perm (h :: (s.adding.erase (t, h)).map Prod.snd) :=
    (List.perm_cons_erase hh).map Prod.snd
  refine yields_pure.mpr (hi.requeue [.addTimerInLoop h] hc rfl rfl htodo ?_ ?_ ?_ rfl)
  · refine ⟨?_, trivial⟩
    rintro g ⟨h', ⟨⟩, -⟩
  · have htodo' : system.loop.todo.filterMap addOf = s.system.loop.todo.filterMap addOf ++ [h] := by
      rw [htodo, List.filterMap_append]
      rfl
    simp only [toAdd, List.nil_append, htodo', List.append_assoc, List.singleton_append]
    exact (hperm.append_left _).symm
  · intro h' hh'
    rcases List.mem_cons.mp (hperm.mem_iff.mp hh') with rfl | hold
    · exact .inr List.mem_cons_self
    · exact .inl hold

omit [DecidableEq ι] in
theorem Inv.readSequence (hi : s.Inv []) {timer : TimerPtr} {number : ℕ} {found : Timer}
    (hc : s.queue.heap.cell timer = some (number, found)) (returning : List (ι × TimerPtr)) :
    Inv { s with
      returning := returning
      returned := ⟨number, ⟨timer, found.sequence⟩⟩ :: s.returned } [] := by
  refine ⟨⟨hi.coherent, hi.queue, hi.flagged, hi.unadded, hi.nodup, hi.added, hi.ordered,
    hi.doomed⟩, ?_, hi.live⟩
  intro h hh
  rcases List.mem_cons.mp hh with rfl | hold
  · exact hi.live hc
  · exact hi.returned h hold

omit [DecidableEq ι] in
/-- What is known stays known when the loop thread is about to call one more functor. -/
theorem Known.now {f : TimerFunctor} (hk : s.Known [] h) : s.Known [f] h := by
  refine hk.imp_left fun hm => ?_
  simp only [calls, List.append_nil, List.mem_append] at hm ⊢
  exact hm.imp_left .inl

theorem Inv.cancel_loop (hi : s.Inv []) (hh : h ∈ s.returned)
    (hnot : .addTimerInLoop h ∉ s.system.loop.todo) (hadding : h ∉ s.adding.map Prod.snd) :
    Yields (s.runInLoop (.cancelInLoop h) .loop) (Inv · []) := by
  have hran : .addTimerInLoop h ∈ s.ran := by
    have hmem := (hi.returned h hh).resolve_right hadding
    simp only [calls, List.append_nil, List.mem_append] at hmem
    exact hmem.resolve_right hnot
  refine Inv.call (f := .cancelInLoop h) ⟨⟨hi.coherent, hi.queue, hi.flagged, hi.unadded, hi.nodup,
    hi.added, ?_, hi.doomed⟩, fun h' hh' => (hi.returned h' hh').now, fun hc => (hi.live hc).now⟩
  have hordered := hi.ordered
  simp only [calls, List.append_nil] at hordered
  refine hordered.insert ?_
  rintro g ⟨h', heq, rfl⟩
  cases heq
  exact hran

omit [DecidableEq ι] in
theorem Inv.unadded_handle (hi : s.Inv []) {q : TimerQueue} {timer : TimerPtr} {when : Timestamp}
    {interval : Seconds} (hfree : s.queue.heap.get timer = none ∧ timer ≠ uintptrMax)
    (hq : s.queue.step (.newTimer timer when interval) = .ok q) :
    q.Unadded (s.queue.handle timer) ∧ s.queue.handle timer ∉ s.toAdd [] := by
  refine ⟨TimerQueue.unadded_newTimer hfree hq, fun hm => ?_⟩
  exact lt_irrefl _ (hi.unadded _ hm).refers.lt_created

omit [DecidableEq ι] in
theorem Inv.live_newTimer (hi : s.Inv []) {q : TimerQueue} {timer p : TimerPtr} {when : Timestamp}
    {interval : Seconds} {n : ℕ} {tm : Timer}
    (hfree : s.queue.heap.get timer = none ∧ timer ≠ uintptrMax)
    (hq : s.queue.step (.newTimer timer when interval) = .ok q)
    (hc : q.heap.cell p = some (n, tm)) :
    s.Known [] ⟨n, ⟨p, tm.sequence⟩⟩ ∨ ⟨n, ⟨p, tm.sequence⟩⟩ = s.queue.handle timer := by
  obtain ⟨scheduled, hinv⟩ := hi.queue
  rcases TimerQueue.cell_newTimer hfree hq hc with hn | heq
  · obtain ⟨tm', hc', hseq⟩ := (TimerQueue.step_evolves hinv hq).cell_old hc hn
    rw [← hseq]
    exact .inl (hi.live hc')
  · exact .inr heq

theorem Inv.addTimer (hi : s.Inv []) {q : TimerQueue} {timer : TimerPtr} {when : Timestamp}
    {interval : Seconds} (hfree : s.queue.heap.get timer = none ∧ timer ≠ uintptrMax)
    (hq : s.queue.step (.newTimer timer when interval) = .ok q) :
    Yields (runInLoop { s with queue := q, returned := s.queue.handle timer :: s.returned }
      (.addTimerInLoop (s.queue.handle timer)) .loop) (Inv · []) := by
  obtain ⟨hu, hnew⟩ := hi.unadded_handle hfree hq
  have he := hi.toKept.evolve hq (by rintro h - ⟨⟩)
  have hnow : Known { s with queue := q, returned := s.queue.handle timer :: s.returned }
      [.addTimerInLoop (s.queue.handle timer)] (s.queue.handle timer) := by
    refine .inl ?_
    simp [calls]
  refine Inv.call (s := { s with queue := q, returned := s.queue.handle timer :: s.returned })
    (f := .addTimerInLoop (s.queue.handle timer))
    ⟨⟨he.coherent, he.queue, he.flagged, ?_, ?_, he.added, ?_, he.doomed⟩, ?_, ?_⟩
  · intro h hh
    rcases List.mem_cons.mp hh with rfl | hh
    · exact hu
    · exact he.unadded h hh
  · exact List.nodup_cons.mpr ⟨hnew, he.nodup⟩
  · have hordered := hi.ordered
    simp only [calls, List.append_nil] at hordered
    refine hordered.insert ?_
    rintro g ⟨h', ⟨⟩, -⟩
  · intro h hh
    rcases List.mem_cons.mp hh with rfl | hh
    · exact hnow
    · exact (hi.returned h hh).now
  · intro p n tm hc
    rcases hi.live_newTimer hfree hq hc with hk | heq
    · exact hk.now
    · rw [heq]
      exact hnow

omit [DecidableEq ι] in
theorem Inv.newTimer (hi : s.Inv []) {q : TimerQueue} (t : ι) {timer : TimerPtr}
    {when : Timestamp} {interval : Seconds}
    (hfree : s.queue.heap.get timer = none ∧ timer ≠ uintptrMax)
    (hq : s.queue.step (.newTimer timer when interval) = .ok q) :
    Inv { s with queue := q, adding := (t, s.queue.handle timer) :: s.adding } [] := by
  obtain ⟨hu, hnew⟩ := hi.unadded_handle hfree hq
  have he := hi.toKept.evolve hq (by rintro h - ⟨⟩)
  have hknown : ∀ {h}, s.Known [] h →
      Known { s with queue := q, adding := (t, s.queue.handle timer) :: s.adding } [] h :=
    fun hk => hk.imp_right (List.mem_cons_of_mem _)
  have hadd : (toAdd { s with queue := q, adding := (t, s.queue.handle timer) :: s.adding } []).Perm
      (s.queue.handle timer :: s.toAdd []) := List.perm_middle
  refine ⟨⟨he.coherent, he.queue, he.flagged, ?_, ?_, he.added, he.ordered, he.doomed⟩,
    fun h hh => hknown (hi.returned h hh), ?_⟩
  · intro h hh
    rcases List.mem_cons.mp (hadd.mem_iff.mp hh) with rfl | hh
    · exact hu
    · exact he.unadded h hh
  · exact hadd.nodup_iff.mpr (List.nodup_cons.mpr ⟨hnew, he.nodup⟩)
  · intro p n tm hc
    rcases hi.live_newTimer hfree hq hc with hk | heq
    · exact hknown hk
    · rw [heq]
      exact .inr List.mem_cons_self

theorem step_inv (s : TimerLoop ι) (x : TimerLoopLabel ι) (hi : s.Inv [])
    (hx : s.CancelsAdded x) : Yields (s.step x) (Inv · []) := by
  cases x with
  | act a =>
    simp only [step]
    split
    · exact hi.systemStep (by simp) (by simp [LoopSystem.queues])
    · exact yields_pure.mpr hi
  | runFunctor =>
    simp only [step]
    split
    · next f l hn => exact hi.runFunctor hn
    · exact yields_pure.mpr hi
  | queueInLoop thread =>
    cases thread with
    | loop => exact hi.systemStep (by simp) (by simp [LoopSystem.queues])
    | other t => exact hi.systemStep (by simp) (by simp [LoopSystem.queues])
  | wake t => exact hi.systemStep (by simp) (by simp [LoopSystem.queues])
  | quit thread =>
    cases thread with
    | loop => exact hi.systemStep (by simp) (by simp [LoopSystem.queues])
    | other t => exact hi.systemStep (by simp) (by simp [LoopSystem.queues])
  | wakeQuit t => exact hi.systemStep (by simp) (by simp [LoopSystem.queues])
  | tick now => exact hi.queueStep (by simp) (by simp)
  | handleRead readAt =>
    simp only [step]
    split
    · exact hi.queueStep (by simp) (by simp)
    · exact yields_pure.mpr hi
  | runCallback => exact hi.queueStep (by simp) (by simp)
  | finishRead => exact hi.queueStep (by simp) (by simp)
  | addTimer timer when interval =>
    simp only [step]
    split
    · next hfree =>
      obtain ⟨q, hq, -⟩ := TimerQueue.step_inv _ (.newTimer timer when interval) hi.queue
      refine yields_bind ⟨q, hq, rfl⟩ ?_
      rintro _ rfl
      exact hi.addTimer hfree.2 hq
    · exact yields_pure.mpr hi
  | newTimer t timer when interval =>
    simp only [step]
    split
    · next hfree =>
      obtain ⟨q, hq, -⟩ := TimerQueue.step_inv _ (.newTimer timer when interval) hi.queue
      refine yields_bind ⟨q, hq, rfl⟩ ?_
      rintro _ rfl
      exact yields_pure.mpr (hi.newTimer t hfree hq)
    · exact yields_pure.mpr hi
  | queueAdd t h =>
    simp only [step]
    split
    · next hh => exact hi.queueAdd hh
    · exact yields_pure.mpr hi
  | readSequence t timer =>
    simp only [step]
    split
    · next hh =>
      split
      · next number found hc => exact yields_pure.mpr (hi.readSequence hc _)
      · next hc => exact absurd hc (hx hh.1 hh.2)
    · exact yields_pure.mpr hi
  | cancel thread h =>
    simp only [step]
    split
    · next hh =>
      cases thread with
      | loop =>
        obtain ⟨hnot, hadding⟩ := hx hh.1 hh.2
        exact hi.cancel_loop hh.2 hnot hadding
      | other t => exact hi.cancel_other t hh.2 (hx hh.2)
    · exact yields_pure.mpr hi

omit [DecidableEq ι] in
/-- A Timer that is still to be added has not been added. -/
theorem Kept.not_ran (hi : s.Kept []) (hadd : h ∈ s.toAdd []) : .addTimerInLoop h ∉ s.ran :=
  fun hran => (hi.unadded h hadd).not_added (hi.added h hran)

theorem Inv.cancel_loop_overtakes (hi : s.Inv [])
    (hx : ¬ s.CancelsAdded (.cancel .loop h)) :
    ¬ Yields (s.step (.cancel .loop h)) CancelsFollowAdds := by
  simp only [CancelsAdded, not_forall] at hx
  obtain ⟨huser, hret, hqueued⟩ := hx
  rintro ⟨s', hs', hfollow⟩
  simp only [step, runsUserCode, huser, hret, and_self, if_true] at hs'
  obtain ⟨q, -, heq⟩ := bind_eq_ok hs'
  cases heq
  have hran : .addTimerInLoop h ∈ s.ran := hfollow s.ran h s.system.loop.todo (by simp [calls])
  refine hi.not_ran ?_ hran
  by_contra hnot
  refine hqueued ⟨fun hm => hnot ?_, fun hm => hnot (List.mem_append_right _ hm)⟩
  exact List.mem_append_left _ (List.mem_filterMap.mpr ⟨_, hm, rfl⟩)

theorem Inv.cancel_other_overtakes (hi : s.Inv []) (t : ι)
    (hx : ¬ s.CancelsAdded (.cancel (.other t) h)) :
    ¬ Yields (s.step (.cancel (.other t) h)) CancelsFollowAdds := by
  simp only [CancelsAdded, not_forall, not_not] at hx
  obtain ⟨hret, hadding⟩ := hx
  rintro ⟨s', hs', hfollow⟩
  simp only [step, runsUserCode, hret, and_self, if_true] at hs'
  obtain ⟨system, hsystem, heq⟩ := bind_eq_ok hs'
  cases heq
  cases hsystem
  have hbefore : .addTimerInLoop h ∈ s.ran ++ s.system.loop.todo :=
    hfollow _ h [] (by simp [calls])
  rcases List.mem_append.mp hbefore with hran | htodo
  · exact hi.not_ran (List.mem_append_right _ hadding) hran
  · have hqueued : h ∈ s.system.loop.todo.filterMap addOf := List.mem_filterMap.mpr ⟨_, htodo, rfl⟩
    exact (List.nodup_append.mp hi.nodup).2.2 h hqueued h hadding rfl

/-- A step that does not meet the condition breaks the order, or reads a Timer that is gone. -/
theorem step_overtakes (s : TimerLoop ι) (x : TimerLoopLabel ι) (hi : s.Inv [])
    (hx : ¬ s.CancelsAdded x) : ¬ Yields (s.step x) CancelsFollowAdds := by
  cases x with
  | cancel thread h =>
    cases thread with
    | other t => exact hi.cancel_other_overtakes t hx
    | loop => exact hi.cancel_loop_overtakes hx
  | readSequence t timer =>
    simp only [CancelsAdded, not_forall, not_not] at hx
    obtain ⟨hret, hwoken, hc⟩ := hx
    simp only [step, hret, hwoken, not_false_eq_true, and_self, if_true, hc]
    exact yields_error
  | _ => exact absurd trivial hx

end Steps

/-- Along a run, no deleted Timer is read, every `CancelInLoop` follows the `AddTimerInLoop` of its
Timer and none of the Timers cancelled is left scheduled, exactly when the loop thread never calls
`Cancel` while the `AddTimerInLoop` is still to be run, no other thread while it is still to be
queued, and `AddTimer` never reads the sequence number where no Timer is. -/
theorem cancel_not_overtaken_iff (now : Timestamp) (labels : List (TimerLoopLabel ι)) :
    (∀ n, Yields (run step (new now) (labels.take n)) fun s : TimerLoop ι =>
      s.CancelsFollowAdds ∧ s.NoneLeftScheduled) ↔ Along step CancelsAdded (new now) labels := by
  refine run_take_iff (I := fun s => s.Inv []) (E := fun _ _ => True)
    (fun s x hi _ hx => step_inv s x hi hx) ?_
    (fun s hi => ⟨hi.toKept.cancelsFollowAdds, hi.toKept.noneLeftScheduled⟩) (new_inv now)
    (along_of_forall (fun _ _ => trivial) _ _)
  intro s x hi _ hx hy
  exact step_overtakes s x hi hx (hy.mono fun _ hp => hp.1)

/-- A handler in the loop thread cancels a timer that another thread has just added: it is left
scheduled. -/
theorem cancel_overtakes_queued_add :
    Yields (run step (new ⟨1000000⟩ : TimerLoop Unit)
      [.act .loop, .act .testQuit, .act (.pollReturn false), .newTimer () 1 ⟨2000000⟩ ⟨false, 0⟩,
        .queueAdd () ⟨0, ⟨1, 1⟩⟩, .wake (), .readSequence () 1, .cancel .loop ⟨0, ⟨1, 1⟩⟩,
        .act .handled, .act .swap, .runFunctor])
      fun s => s.queue.At 0 .scheduled ∧ ¬ s.CancelsFollowAdds ∧ ¬ s.NoneLeftScheduled := by
  have hrun : Yields (run step (new ⟨1000000⟩ : TimerLoop Unit)
      [.act .loop, .act .testQuit, .act (.pollReturn false), .newTimer () 1 ⟨2000000⟩ ⟨false, 0⟩,
        .queueAdd () ⟨0, ⟨1, 1⟩⟩, .wake (), .readSequence () 1, .cancel .loop ⟨0, ⟨1, 1⟩⟩,
        .act .handled, .act .swap, .runFunctor])
      fun s => s.ran = [.cancelInLoop ⟨0, ⟨1, 1⟩⟩, .addTimerInLoop ⟨0, ⟨1, 1⟩⟩] ∧
        s.queue.At 0 .scheduled :=
    ⟨_, rfl, rfl, 1, .new ⟨2000000⟩ ⟨false, 0⟩ 1, rfl, Finset.mem_insert_self _ _,
      Finset.mem_insert_self _ _⟩
  refine hrun.mono ?_
  rintro s ⟨hran, hat⟩
  refine ⟨hat, fun hfollow => ?_, fun hnone => ?_⟩
  · cases hfollow [] ⟨0, ⟨1, 1⟩⟩ _ (by rw [calls, hran]; rfl)
  · exact hnone ⟨0, ⟨1, 1⟩⟩ (hran ▸ List.mem_cons_self) hat

end TimerLoop

end Dwater
