import Dwater.Base.Sync.CircularBuffer
import Dwater.Base.Types
import Dwater.Lib.CondVar

/-! # The bounded queue

Threads put values into a circular buffer and take them out, under one mutex, and wait on one
condition variable for values and on another for room. A thread holds the mutex from
where it gets it to where it waits or returns; these parts are the steps of the system.
A step comes with the threads that its notification wakes.
-/

set_option autoImplicit false
namespace Dwater

open Fallible

variable {τ β α : Type} [DecidableEq τ]

/-- A `BoundedBlockingQueue`, with the value of the `Put` that a thread is in, and with the values
that have been put and taken, in the order of the mutex. -/
structure BoundedBlockingQueue (τ β α : Type) where
  queue : β
  notEmpty : CondVar τ
  notFull : CondVar τ
  argument : τ → Option α
  stored : List α
  taken : List α

namespace BoundedBlockingQueue

section Methods

variable (buffer : CircularBuffer β α)

def new (maxSize : ℕ) : BoundedBlockingQueue τ β α :=
  { queue := buffer.new maxSize, notEmpty := .new, notFull := .new, argument := fun _ => none,
    stored := [], taken := [] }

/-- `Put`, from the condition of its loop to the next `Wait` or to the end. -/
def put (q : BoundedBlockingQueue τ β α) (t : τ) (x : α) (woken : Multiset τ) :
    Except Fault (BoundedBlockingQueue τ β α) :=
  if buffer.full q.queue then
    .ok { q with
      notFull := q.notFull.wait t
      argument := Function.update q.argument t (some x) }
  else do
    check (buffer.full q.queue = false) (.assertion .bounded_blocking_queue_h 33)
    return { q with
      queue := buffer.pushBack q.queue x
      stored := q.stored ++ [x]
      notEmpty := q.notEmpty.notify woken }

/-- `Take`, from the condition of its loop to the next `Wait` or to the end. -/
def take (q : BoundedBlockingQueue τ β α) (t : τ) (woken : Multiset τ) :
    Except Fault (BoundedBlockingQueue τ β α) :=
  if buffer.empty q.queue then .ok { q with notEmpty := q.notEmpty.wait t }
  else do
    check (buffer.empty q.queue = false) (.assertion .bounded_blocking_queue_h 53)
    match buffer.front q.queue with
    | none => throw (.outOfBounds .bounded_blocking_queue_h 54)
    | some front =>
      return { q with
        queue := buffer.popFront q.queue
        taken := q.taken ++ [front]
        notFull := q.notFull.notify woken }

end Methods

inductive Label (τ α : Type)
  /-- the thread calls `Put` and gets the mutex -/
  | put (t : τ) (x : α) (woken : Multiset τ)
  /-- the thread calls `Take` and gets the mutex -/
  | take (t : τ) (woken : Multiset τ)
  /-- a thread that waited for room gets the mutex back -/
  | resumePut (t : τ) (woken : Multiset τ)
  /-- a thread that waited for a value gets the mutex back -/
  | resumeTake (t : τ) (woken : Multiset τ)
  /-- a thread that waits for room wakes up by itself -/
  | wakePut (t : τ)
  /-- a thread that waits for a value wakes up by itself -/
  | wakeTake (t : τ)

def Idle (q : BoundedBlockingQueue τ β α) (t : τ) : Prop :=
  t ∉ q.notEmpty.threads ∧ t ∉ q.notFull.threads

instance (q : BoundedBlockingQueue τ β α) (t : τ) : Decidable (q.Idle t) :=
  inferInstanceAs (Decidable (_ ∧ _))

def step (buffer : CircularBuffer β α) (q : BoundedBlockingQueue τ β α) :
    Label τ α → Except Fault (BoundedBlockingQueue τ β α)
  | .put t x woken =>
    if q.Idle t ∧ q.notEmpty.Wakes woken then q.put buffer t x woken else .ok q
  | .take t woken =>
    if q.Idle t ∧ q.notFull.Wakes woken then q.take buffer t woken else .ok q
  | .resumePut t woken =>
    match q.argument t with
    | some x =>
      if q.notFull.Resumable t ∧ q.notEmpty.Wakes woken then
        { q with notFull := q.notFull.resume t }.put buffer t x woken
      else .ok q
    | none => .ok q
  | .resumeTake t woken =>
    if q.notEmpty.Resumable t ∧ q.notFull.Wakes woken then
      { q with notEmpty := q.notEmpty.resume t }.take buffer t woken
    else .ok q
  | .wakePut t =>
    .ok (if t ∈ q.notFull.waiting then { q with notFull := q.notFull.wakeUp t } else q)
  | .wakeTake t =>
    .ok (if t ∈ q.notEmpty.waiting then { q with notEmpty := q.notEmpty.wakeUp t } else q)

section Invariant

variable (buffer : CircularBuffer β α) (content : β → List α) (maxSize : ℕ)

/-- The values are in a line from the puts to the takes, and as long as a thread waits without
having been notified, one thread has been notified for each value or each free place. -/
structure Inv (q : BoundedBlockingQueue τ β α) : Prop where
  fifo : q.stored = q.taken ++ content q.queue
  length_le : (content q.queue).length ≤ maxSize
  capacity_eq : buffer.capacity q.queue = maxSize
  takers : q.notEmpty.Covers (content q.queue).length
  putters : q.notFull.Covers (maxSize - (content q.queue).length)

variable {buffer content maxSize} {q : BoundedBlockingQueue τ β α} {t : τ} {x : α}
  {woken : Multiset τ} (hbuffer : buffer.Documented content)

include hbuffer

omit [DecidableEq τ] in
theorem new_inv : Inv buffer content maxSize (new buffer maxSize : BoundedBlockingQueue τ β α) := by
  have hcontent : content (buffer.new maxSize) = [] := hbuffer.new_content maxSize
  constructor
  · simp [new, hcontent]
  · simp [new, hcontent]
  · exact hbuffer.new_capacity maxSize
  · simp only [new, hcontent]
    exact CondVar.covers_new
  · exact CondVar.covers_new

/-- A thread that goes on with `Put` may find one notified putter less than there are
free places. -/
theorem put_inv (hfifo : q.stored = q.taken ++ content q.queue)
    (hle : (content q.queue).length ≤ maxSize) (hcap : buffer.capacity q.queue = maxSize)
    (htakers : q.notEmpty.Covers (content q.queue).length)
    (hputters : q.notFull.Covers (maxSize - (content q.queue).length - 1))
    (hw : q.notEmpty.Wakes woken) :
    Yields (q.put buffer t x woken) (Inv buffer content maxSize) := by
  unfold put
  split
  · next hfull =>
    have hlen := (hbuffer.full_iff q.queue).mp hfull
    have hzero : maxSize - (content q.queue).length = 0 := by omega
    refine yields_ok.mpr ⟨hfifo, hle, hcap, htakers, ?_⟩
    simp only [hzero]
    exact CondVar.covers_zero
  · next hroom =>
    have hroom' := Bool.eq_false_of_not_eq_true hroom
    have hne : (content q.queue).length ≠ buffer.capacity q.queue :=
      fun hlen => hroom ((hbuffer.full_iff q.queue).mpr hlen)
    have hpush := hbuffer.pushBack_content q.queue x hroom'
    rw [check_bind_of_true hroom', yields_pure]
    refine ⟨?_, ?_, (hbuffer.pushBack_capacity ..).trans hcap, ?_, ?_⟩
    · simp [hpush, hfifo]
    · simp only [hpush, List.length_append, List.length_singleton]
      omega
    · simp only [hpush, List.length_append, List.length_singleton]
      exact htakers.notify hw
    · simp only [hpush, List.length_append, List.length_singleton, Nat.sub_add_eq]
      exact hputters

theorem take_inv (hfifo : q.stored = q.taken ++ content q.queue)
    (hle : (content q.queue).length ≤ maxSize) (hcap : buffer.capacity q.queue = maxSize)
    (htakers : q.notEmpty.Covers ((content q.queue).length - 1))
    (hputters : q.notFull.Covers (maxSize - (content q.queue).length))
    (hw : q.notFull.Wakes woken) :
    Yields (q.take buffer t woken) (Inv buffer content maxSize) := by
  unfold take
  split
  · next hempty =>
    have hnil := (hbuffer.empty_iff q.queue).mp hempty
    refine yields_ok.mpr ⟨hfifo, hle, hcap, ?_, hputters⟩
    simp only [hnil]
    exact CondVar.covers_zero
  · next hempty =>
    have hsome := Bool.eq_false_of_not_eq_true hempty
    obtain ⟨front, rest, hcons⟩ := List.exists_cons_of_ne_nil
      fun hnil => hempty ((hbuffer.empty_iff q.queue).mpr hnil)
    have hpop := hbuffer.popFront_content q.queue front rest hcons
    rw [check_bind_of_true hsome, hbuffer.front_eq q.queue front rest hcons]
    rw [hcons] at hfifo hle htakers hputters
    rw [List.length_cons] at hle htakers hputters
    refine yields_pure.mpr ⟨?_, ?_, (hbuffer.popFront_capacity _ _ _ hcons).trans hcap, ?_, ?_⟩
    · simp [hpop, hfifo]
    · simp only [hpop]
      omega
    · simpa only [hpop, Nat.add_sub_cancel] using htakers
    · refine (hputters.notify hw).mono ?_
      simp only [hpop]
      omega

theorem Inv.step_inv (h : q.Inv buffer content maxSize) (label : Label τ α) :
    Yields (q.step buffer label) (Inv buffer content maxSize) := by
  obtain ⟨hfifo, hle, hcap, htakers, hputters⟩ := h
  have hinv : q.Inv buffer content maxSize := ⟨hfifo, hle, hcap, htakers, hputters⟩
  cases label with
  | put t x woken =>
    simp only [step]
    split
    · next hstep =>
      exact put_inv hbuffer hfifo hle hcap htakers (hputters.mono (Nat.sub_le _ _)) hstep.2
    · exact yields_ok.mpr hinv
  | take t woken =>
    simp only [step]
    split
    · next hstep =>
      exact take_inv hbuffer hfifo hle hcap (htakers.mono (Nat.sub_le _ _)) hputters hstep.2
    · exact yields_ok.mpr hinv
  | resumePut t woken =>
    simp only [step]
    split
    · split
      · next hstep => exact put_inv hbuffer hfifo hle hcap htakers hputters.resume hstep.2
      · exact yields_ok.mpr hinv
    · exact yields_ok.mpr hinv
  | resumeTake t woken =>
    simp only [step]
    split
    · next hstep => exact take_inv hbuffer hfifo hle hcap htakers.resume hputters hstep.2
    · exact yields_ok.mpr hinv
  | wakePut t =>
    refine yields_ok.mpr ?_
    split
    · exact ⟨hfifo, hle, hcap, htakers, hputters.wakeUp⟩
    · exact hinv
  | wakeTake t =>
    refine yields_ok.mpr ?_
    split
    · exact ⟨hfifo, hle, hcap, htakers.wakeUp, hputters⟩
    · exact hinv

omit hbuffer

/-- The values leave in the order in which they came, the buffer is never too long, and no thread is
left waiting for a value or for room that nobody else has been notified of. -/
structure Disciplined (content : β → List α) (maxSize : ℕ) (q : BoundedBlockingQueue τ β α) :
    Prop where
  fifo : q.taken <+: q.stored
  length_le : (content q.queue).length ≤ maxSize
  takers : q.notEmpty.waiting ≠ 0 → (content q.queue).length ≤ q.notEmpty.notified.card
  putters : q.notFull.waiting ≠ 0 →
    maxSize - (content q.queue).length ≤ q.notFull.notified.card

omit [DecidableEq τ] in
theorem Inv.disciplined (h : q.Inv buffer content maxSize) : q.Disciplined content maxSize :=
  ⟨⟨content q.queue, h.fifo.symm⟩, h.length_le, h.takers, h.putters⟩

end Invariant

end BoundedBlockingQueue

/-- Whatever the threads do, the assertions hold and the queue is disciplined. -/
theorem bounded_queue_disciplined (buffer : CircularBuffer β α) (content : β → List α)
    (hbuffer : buffer.Documented content) (maxSize : ℕ)
    (labels : List (BoundedBlockingQueue.Label τ α)) :
    Yields (run (BoundedBlockingQueue.step buffer) (.new buffer maxSize) labels)
      fun q => q.Disciplined content maxSize := by
  refine (run_invariant (C := fun _ _ => True) (fun q label h _ => h.step_inv hbuffer label)
    (BoundedBlockingQueue.new_inv hbuffer) (along_of_forall (fun _ _ => trivial) _ labels)).mono ?_
  exact fun q h => h.disciplined

/-- A taker that waits is notified by the first value, and another takes it before. -/
theorem bounded_queue_disciplined_overtaken_taker :
    Yields (run (BoundedBlockingQueue.step .ofList) (.new .ofList 1)
      [.take 0 0, .put 1 'a' {0}, .take 2 0, .resumeTake 0 0])
      fun q : BoundedBlockingQueue ℕ (ℕ × List Char) Char => q.Disciplined Prod.snd 1 :=
  bounded_queue_disciplined .ofList Prod.snd CircularBuffer.ofList_documented 1 _

end Dwater
