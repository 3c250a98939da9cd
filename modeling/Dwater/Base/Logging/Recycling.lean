import Dwater.Base.Logging.AsyncLogging

/-! # Recycling of the logging buffers

At the head of every round `ThreadFunc` expects two empty buffers, and it hands one of them
to the front end. The statements that take a written buffer back move it to the pointer and
then reset the pointer, so after its first round `ThreadFunc` has one buffer only.
-/

set_option autoImplicit false
namespace Dwater

open Fallible

/-- The logger and the rounds that `ThreadFunc` has begun. -/
structure LoggerRun where
  logging : AsyncLogging
  rounds : ℕ
  deriving DecidableEq, Repr

inductive LoggerLabel
  | append (logline : List Byte)
  | start
  | testRunning
  | lock
  | wake
  | write
  | clearRunning

namespace LoggerRun

def new : LoggerRun := ⟨.new, 0⟩

def step (s : LoggerRun) : LoggerLabel → Except Fault LoggerRun
  | .append logline => do
    let l ← s.logging.append logline
    return { s with logging := l }
  | .start =>
    if s.logging.phase = .notStarted then return { s with logging := s.logging.start } else return s
  | .testRunning =>
    if s.logging.phase = .test then do
      let l ← s.logging.testRunning
      return { logging := l, rounds := if l.phase = .lock then s.rounds + 1 else s.rounds }
    else return s
  | .lock =>
    if s.logging.phase = .lock then return { s with logging := s.logging.lock } else return s
  | .wake =>
    if s.logging.phase = .wait then return { s with logging := s.logging.swapBuffers }
    else return s
  | .write =>
    if s.logging.phase = .write then do
      let l ← s.logging.write
      return { s with logging := l }
    else return s
  | .clearRunning => return { s with logging := { s.logging with running := false } }

/-- `curr_buffer_` is not null, and the assertions at the head of a round hold in it. -/
structure Recycles (s : LoggerRun) : Prop where
  curr_ne : s.logging.currBuffer ≠ none
  head : s.logging.phase = .lock →
    AsyncLogging.isEmptyBuffer s.logging.newBuffer1 = true ∧
      AsyncLogging.isEmptyBuffer s.logging.newBuffer2 = true ∧ s.logging.buffersToWrite = []

/-- The steps that the code supports: no message overruns `curr_buffer_`, and `ThreadFunc` does
not begin a second round. -/
def Supported (s : LoggerRun) : LoggerLabel → Prop
  | .append logline => ∀ b, s.logging.currBuffer = some b → logline.length < kLargeBuffer →
      b.content.length + logline.length ≤ kLargeBuffer
  | .testRunning => s.logging.phase = .test → s.logging.running = true → s.rounds = 0
  | _ => True

/-- `ThreadFunc` has both of its buffers. -/
structure Unspent (s : LoggerRun) : Prop where
  phase_ne : s.logging.phase ≠ .write
  rounds_eq : s.logging.phase = .notStarted ∨ s.logging.phase = .test → s.rounds = 0
  rounds_pos : s.logging.phase = .lock ∨ s.logging.phase = .wait → 0 < s.rounds
  new1_eq : s.logging.newBuffer1 = some .new
  toWrite_eq : s.logging.buffersToWrite = []

/-- `ThreadFunc` has given `new_buffer1` away. -/
structure Spent (s : LoggerRun) : Prop where
  phase_mem : s.logging.phase = .write ∨ s.logging.phase = .test ∨ s.logging.phase = .exited
  rounds_pos : 0 < s.rounds
  new1_eq : s.logging.newBuffer1 = none
  writing : s.logging.phase = .write → ∃ b, s.logging.buffersToWrite = [some b]
  written : s.logging.phase ≠ .write → s.logging.buffersToWrite = []

/-- The invariant of supported runs: the front end keeps its second buffer. -/
structure Inv (s : LoggerRun) : Prop where
  curr : ∃ b, s.logging.currBuffer = some b
  next_eq : s.logging.nextBuffer = some .new
  buffers_eq : s.logging.buffers = []
  new2_eq : s.logging.newBuffer2 = some .new
  state : s.Unspent ∨ s.Spent

variable {s : LoggerRun}

theorem new_inv : new.Inv := by
  refine ⟨⟨_, rfl⟩, rfl, rfl, rfl, .inl ⟨?_, fun _ => rfl, ?_, rfl, rfl⟩⟩ <;>
    simp [new, AsyncLogging.new]

theorem Inv.recycles (h : s.Inv) : s.Recycles := by
  obtain ⟨b, hb⟩ := h.curr
  refine ⟨by simp [hb], fun hp => ?_⟩
  rcases h.state with hu | hs
  · rw [hu.new1_eq, h.new2_eq]
    exact ⟨rfl, rfl, hu.toWrite_eq⟩
  · rcases hs.phase_mem with hw | hw | hw <;> simp [hp] at hw

/-- The test of `Avail()` always succeeds, so an `Append` writes to `curr_buffer_`. -/
theorem append_eq {l : AsyncLogging} {b : FixedBuffer kLargeBuffer} (hb : l.currBuffer = some b)
    (logline : List Byte) :
    l.append logline = (b.append logline).map fun curr => { l with currBuffer := some curr } := by
  have havail : b.avail ≠ 0 := by simp [FixedBuffer.avail, kLargeBuffer]
  rw [AsyncLogging.append, hb]
  simp only [if_pos havail]
  rfl

theorem yields_append {b : FixedBuffer kLargeBuffer} {logline : List Byte}
    (h : logline.length < kLargeBuffer → b.content.length + logline.length ≤ kLargeBuffer) :
    Yields (b.append logline) fun _ => True := by
  by_cases hlt : logline.length < kLargeBuffer
  · have hfit : (b.content ++ logline).length ≤ kLargeBuffer := by
      rw [List.length_append]
      exact h hlt
    rw [b.append_eq hlt hfit]
    exact yields_ok.mpr trivial
  · rw [b.append_eq_self hlt]
    exact yields_ok.mpr trivial

theorem append_inv (h : s.Inv) (logline : List Byte) (hx : s.Supported (.append logline)) :
    Yields (s.step (.append logline)) Inv := by
  obtain ⟨b, hb⟩ := h.curr
  obtain ⟨curr, hcurr, -⟩ := yields_append (hx b hb)
  simp only [step, append_eq hb, hcurr]
  refine yields_ok.mpr ⟨⟨curr, rfl⟩, h.next_eq, h.buffers_eq, h.new2_eq, ?_⟩
  rcases h.state with hu | hs
  · exact .inl ⟨hu.phase_ne, hu.rounds_eq, hu.rounds_pos, hu.new1_eq, hu.toWrite_eq⟩
  · exact .inr ⟨hs.phase_mem, hs.rounds_pos, hs.new1_eq, hs.writing, hs.written⟩

theorem append_overruns (logline : List Byte) (hx : ¬ s.Supported (.append logline)) :
    ¬ Yields (s.step (.append logline)) Recycles := by
  simp only [Supported, not_forall, not_le] at hx
  obtain ⟨b, hb, hlt, hover⟩ := hx
  have hfit : ¬ (b.content ++ logline).length ≤ kLargeBuffer := by
    rw [List.length_append]
    omega
  simp only [step, append_eq hb, b.append_overruns hlt hfit]
  exact yields_error

theorem Unspent.moved (h : s.Unspent) {running : Bool} {phase : LoggingPhase} {rounds : ℕ}
    (hp : phase ≠ .write) (hr : phase = .notStarted ∨ phase = .test → rounds = 0)
    (hr' : phase = .lock ∨ phase = .wait → 0 < rounds) :
    Unspent ⟨{ s.logging with running := running, phase := phase }, rounds⟩ :=
  ⟨hp, hr, hr', h.new1_eq, h.toWrite_eq⟩

theorem Spent.phase_ne (h : s.Spent) :
    s.logging.phase ≠ .notStarted ∧ s.logging.phase ≠ .lock ∧ s.logging.phase ≠ .wait := by
  rcases h.phase_mem with hp | hp | hp <;> simp [hp]

theorem Inv.moved (h : s.Inv) {running : Bool} {phase : LoggingPhase} {rounds : ℕ}
    (hstate : Unspent ⟨{ s.logging with running := running, phase := phase }, rounds⟩ ∨
      Spent ⟨{ s.logging with running := running, phase := phase }, rounds⟩) :
    Inv ⟨{ s.logging with running := running, phase := phase }, rounds⟩ :=
  ⟨h.curr, h.next_eq, h.buffers_eq, h.new2_eq, hstate⟩

theorem start_inv (h : s.Inv) (hp : s.logging.phase = .notStarted) :
    Inv { s with logging := s.logging.start } := by
  rcases h.state with hu | hs
  · exact h.moved (.inl (hu.moved (by simp) (fun _ => hu.rounds_eq (.inl hp)) (by simp)))
  · exact absurd hp hs.phase_ne.1

theorem clearRunning_inv (h : s.Inv) :
    Inv { s with logging := { s.logging with running := false } } := by
  rcases h.state with hu | hs
  · exact h.moved (.inl (hu.moved hu.phase_ne hu.rounds_eq hu.rounds_pos))
  · exact h.moved (.inr ⟨hs.phase_mem, hs.rounds_pos, hs.new1_eq, hs.writing, hs.written⟩)

theorem testRunning_eq (h : s.Inv) (hu : s.Unspent) (hr : s.logging.running = true) :
    s.logging.testRunning = .ok { s.logging with phase := .lock } := by
  have h1 : AsyncLogging.isEmptyBuffer s.logging.newBuffer1 = true := by
    rw [hu.new1_eq]
    rfl
  have h2 : AsyncLogging.isEmptyBuffer s.logging.newBuffer2 = true := by
    rw [h.new2_eq]
    rfl
  rw [AsyncLogging.testRunning, if_pos hr, check_bind_of_true h1, check_bind_of_true h2,
    check_bind_of_true hu.toWrite_eq]
  rfl

theorem testRunning_inv (h : s.Inv) (hp : s.logging.phase = .test)
    (hx : s.Supported .testRunning) : Yields (s.step .testRunning) Inv := by
  simp only [step, if_pos hp]
  cases hr : s.logging.running with
  | false =>
    have htest : s.logging.testRunning = .ok { s.logging with phase := .exited } := by
      rw [AsyncLogging.testRunning, if_neg (by simp [hr])]
      rfl
    rw [htest]
    refine yields_ok.mpr (h.moved ?_)
    rcases h.state with hu | hs
    · exact .inl (hu.moved (by simp) (by simp) (by simp))
    · refine .inr ⟨.inr (.inr rfl), hs.rounds_pos, hs.new1_eq, by simp, fun _ => ?_⟩
      exact hs.written (by simp [hp])
  | true =>
    have hzero := hx hp hr
    rcases h.state with hu | hs
    · rw [testRunning_eq h hu hr]
      exact yields_ok.mpr (h.moved (.inl (hu.moved (by simp) (by simp) (by simp))))
    · exact absurd hzero (Nat.ne_of_gt hs.rounds_pos)

/-- At the head of a second round `new_buffer1` is null. -/
theorem second_round_fails (h : s.Inv) (hx : ¬ s.Supported .testRunning) :
    ¬ Yields (s.step .testRunning) Recycles := by
  simp only [Supported, not_forall] at hx
  obtain ⟨hp, hr, hrounds⟩ := hx
  have hnone : s.logging.newBuffer1 = none := by
    rcases h.state with hu | hs
    · exact absurd (hu.rounds_eq (.inr hp)) hrounds
    · exact hs.new1_eq
  have hnull : ¬ AsyncLogging.isEmptyBuffer s.logging.newBuffer1 = true := by
    rw [hnone]
    exact Bool.false_ne_true
  have htest : s.logging.testRunning = .error (.assertion .async_logging_cc 87) := by
    rw [AsyncLogging.testRunning, if_pos hr, check_bind_of_false hnull]
  simp only [step, if_pos hp, htest]
  exact yields_error

theorem lock_inv (h : s.Inv) (hp : s.logging.phase = .lock) :
    Inv { s with logging := s.logging.lock } := by
  rcases h.state with hu | hs
  · rw [AsyncLogging.lock, if_pos h.buffers_eq]
    exact h.moved (.inl (hu.moved (by simp) (by simp) fun _ => hu.rounds_pos (.inl hp)))
  · exact absurd hp hs.phase_ne.2.1

theorem wake_inv (h : s.Inv) (hp : s.logging.phase = .wait) :
    Inv { s with logging := s.logging.swapBuffers } := by
  obtain ⟨b, hb⟩ := h.curr
  rcases h.state with hu | hs
  · refine ⟨⟨.new, hu.new1_eq⟩, ?_, hu.toWrite_eq, ?_, .inr ⟨.inl rfl, hu.rounds_pos (.inr hp), rfl,
      fun _ => ⟨b, ?_⟩, fun hne => absurd rfl hne⟩⟩
    · simp [AsyncLogging.swapBuffers, h.next_eq]
    · simp [AsyncLogging.swapBuffers, h.next_eq, h.new2_eq]
    · simp [AsyncLogging.swapBuffers, h.buffers_eq, hb]
  · exact absurd hp hs.phase_ne.2.2

/-- The buffer that has been written is moved to `new_buffer1` and deleted there. -/
theorem write_inv (h : s.Inv) (hp : s.logging.phase = .write) :
    Yields (s.step .write) Inv := by
  rcases h.state with hu | hs
  · exact absurd hp hu.phase_ne
  · obtain ⟨b, hb⟩ := hs.writing hp
    have hwrite : s.logging.write = .ok { s.logging with
        phase := .test, newBuffer1 := none, newBuffer2 := some .new, buffersToWrite := []
        output := s.logging.output ++ [.data b.content] } := by
      simp only [AsyncLogging.write, hb, hs.new1_eq, h.new2_eq]
      rfl
    simp only [step, if_pos hp, hwrite]
    exact yields_ok.mpr ⟨h.curr, h.next_eq, h.buffers_eq, rfl,
      .inr ⟨.inr (.inl rfl), hs.rounds_pos, rfl, by simp, fun _ => rfl⟩⟩

theorem step_inv (s : LoggerRun) (x : LoggerLabel) (h : s.Inv) (hx : s.Supported x) :
    Yields (s.step x) Inv := by
  cases x with
  | append logline => exact append_inv h logline hx
  | start =>
    simp only [step]
    split
    · next hp => exact yields_pure.mpr (start_inv h hp)
    · exact yields_pure.mpr h
  | testRunning =>
    by_cases hp : s.logging.phase = .test
    · exact testRunning_inv h hp hx
    · simp only [step, if_neg hp]
      exact yields_pure.mpr h
  | lock =>
    simp only [step]
    split
    · next hp => exact yields_pure.mpr (lock_inv h hp)
    · exact yields_pure.mpr h
  | wake =>
    simp only [step]
    split
    · next hp => exact yields_pure.mpr (wake_inv h hp)
    · exact yields_pure.mpr h
  | write =>
    by_cases hp : s.logging.phase = .write
    · exact write_inv h hp
    · simp only [step, if_neg hp]
      exact yields_pure.mpr h
  | clearRunning => exact yields_pure.mpr (clearRunning_inv h)

theorem unsupported_fails (s : LoggerRun) (x : LoggerLabel) (h : s.Inv) (hx : ¬ s.Supported x) :
    ¬ Yields (s.step x) Recycles := by
  cases x with
  | append logline => exact append_overruns logline hx
  | testRunning => exact second_round_fails h hx
  | start => exact absurd trivial hx
  | lock => exact absurd trivial hx
  | wake => exact absurd trivial hx
  | write => exact absurd trivial hx
  | clearRunning => exact absurd trivial hx

/-- The buffers are recycled all along a run exactly when `ThreadFunc` begins one round at most
and no message overruns the buffer. -/
theorem recycles_iff (labels : List LoggerLabel) :
    (∀ n, Yields (run step new (labels.take n)) Recycles) ↔ Along step Supported new labels :=
  run_take_iff (E := fun _ _ => True) (fun s x h _ hx => step_inv s x h hx)
    (fun s x h _ hx => unsupported_fails s x h hx) (fun _ h => h.recycles) new_inv
    (along_of_forall (fun _ _ => trivial) new labels)

/-- The assertion on `new_buffer1` fails when `ThreadFunc` begins its second round. -/
theorem second_round_without_buffer :
    (∃ s, run step new [.start, .testRunning, .lock, .wake, .write] = .ok s ∧
      s.step .testRunning = .error (.assertion .async_logging_cc 87)) ∧
    ¬ ∀ n, Yields (run step new (List.take n
      [.start, .testRunning, .lock, .wake, .write, .testRunning])) Recycles := by
  refine ⟨⟨_, rfl, rfl⟩, fun h => ?_⟩
  obtain ⟨s, hs, -⟩ := h 6
  cases hs

end LoggerRun

end Dwater
