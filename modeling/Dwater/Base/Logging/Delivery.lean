import Dwater.Base.Logging.AsyncLogging

/-! # Delivery of log messages

Any number of threads append, `ThreadFunc` writes, and one `Stop()` ends it. `ThreadFunc`
can make one round only, since the assertion at the head of a second one fails. What has
been appended when it takes the buffers is written, and whatever is appended afterwards
stays in `curr_buffer_`.
-/

set_option autoImplicit false
namespace Dwater

open Fallible

abbrev LogMessage := { m : List Byte // m.length < kLargeBuffer }

/--
A call of `Append` that has been through its critical section: in which round of `ThreadFunc`, and
whether it has returned, and has done so before `Stop()` was called.
-/
structure AppendCall where
  message : List Byte
  round : ℕ
  returned : Bool
  inTime : Bool
  deriving DecidableEq, Repr

/-- How far the call of `Stop()` has come; `stopped` is after the store to `running_`. -/
inductive StopPhase
  | idle | called | stopped | returned
  deriving DecidableEq, Repr

/-- The logger, the `Append` calls in the order of the mutex, the rounds begun and `Stop()`. -/
structure LoggingSystem where
  logging : AsyncLogging
  calls : List AppendCall
  rounds : ℕ
  stop : StopPhase
  deriving DecidableEq, Repr

inductive LoggingLabel
  | append (message : LogMessage)
  | appendReturns (call : ℕ)
  | start
  | testRunning
  | lock
  | wake
  | write
  | callStop
  | clearRunning
  | joinReturns

namespace LoggingSystem

def new : LoggingSystem := ⟨.new, [], 0, .idle⟩

/-- The round of `ThreadFunc` that a step of its critical section has reached. -/
def enter (s : LoggingSystem) (l : AsyncLogging) : LoggingSystem :=
  { s with logging := l, rounds := if l.phase = .write then s.rounds + 1 else s.rounds }

def returnCall (s : LoggingSystem) (c : AppendCall) : AppendCall :=
  if c.returned then c else { c with returned := true, inTime := s.stop = .idle }

def step (s : LoggingSystem) : LoggingLabel → Except Fault LoggingSystem
  | .append message => do
    let l ← s.logging.append message.val
    return { s with logging := l, calls := s.calls ++ [⟨message.val, s.rounds, false, false⟩] }
  | .appendReturns call => return { s with calls := s.calls.modify call s.returnCall }
  | .start =>
    if s.logging.phase = .notStarted then return { s with logging := s.logging.start } else return s
  | .testRunning =>
    if s.logging.phase = .test then do
      let l ← s.logging.testRunning
      return { s with logging := l }
    else return s
  | .lock => if s.logging.phase = .lock then return s.enter s.logging.lock else return s
  | .wake => if s.logging.phase = .wait then return s.enter s.logging.swapBuffers else return s
  | .write =>
    if s.logging.phase = .write then do
      let l ← s.logging.write
      return { s with logging := l }
    else return s
  | .callStop =>
    if s.stop = .idle ∧ s.logging.phase ≠ .notStarted then return { s with stop := .called }
    else return s
  | .clearRunning =>
    if s.stop = .called then
      return { s with logging := { s.logging with running := false }, stop := .stopped }
    else return s
  | .joinReturns =>
    if s.stop = .stopped ∧ s.logging.phase = .exited then return { s with stop := .returned }
    else return s

def messages (calls : List AppendCall) : List Byte := calls.flatMap AppendCall.message

/--
When `Stop()` has returned, the buffers handed to the log file and those discarded with a notice
are the messages whose `Append` had returned when it was called, in the order of the mutex.
-/
def Lossless (s : LoggingSystem) : Prop :=
  s.stop = .returned →
    s.logging.output.flatMap LogItem.content = messages (s.calls.filter AppendCall.inTime)

/--
The timing under which nothing is lost: no message overruns `curr_buffer_`; `ThreadFunc` makes one
round and finds `running_` cleared at its second test, or finds it so at the first and no message
had returned in time; and the `Append` calls that returned before `Stop()` was called are those that
took the mutex before `ThreadFunc` took the buffers.
-/
def Timely (s : LoggingSystem) : LoggingLabel → Prop
  | .append message => ∀ b, s.logging.currBuffer = some b →
      b.content.length + message.val.length ≤ kLargeBuffer
  | .appendReturns call => ∀ c, s.calls[call]? = some c → 0 < c.round → s.stop ≠ .idle
  | .testRunning => s.logging.phase = .test →
      (s.rounds = 0 → s.logging.running = false → ∀ c ∈ s.calls, c.inTime = false) ∧
      (0 < s.rounds → s.logging.running = false)
  | .wake => s.logging.phase = .wait → s.stop ≠ .idle → ∀ c ∈ s.calls, c.inTime = true
  | .callStop => s.stop = .idle → 0 < s.rounds →
      ∀ c ∈ s.calls, c.round = 0 → c.returned = true
  | _ => True

theorem messages_append (calls : List AppendCall) (c : AppendCall) :
    messages (calls ++ [c]) = messages calls ++ c.message := by
  simp [messages]

theorem messages_filter (p : AppendCall → Bool) (calls : List AppendCall) :
    messages (calls.filter p) = calls.flatMap fun c => if p c then c.message else [] := by
  induction calls with
  | nil => rfl
  | cons c calls ih =>
    rw [List.filter_cons]
    split
    · next hp =>
      rw [List.flatMap_cons, if_pos hp, ← ih]
      rfl
    · next hp =>
      rw [List.flatMap_cons, if_neg hp, List.nil_append, ih]

theorem mem_modify {calls : List AppendCall} {f : AppendCall → AppendCall} {i : ℕ}
    {c : AppendCall} (h : c ∈ calls.modify i f) :
    c ∈ calls ∨ ∃ d, calls[i]? = some d ∧ c = f d := by
  obtain ⟨j, hj⟩ := List.mem_iff_getElem?.mp h
  rw [List.getElem?_modify] at hj
  obtain ⟨d, hd, hc⟩ := Option.map_eq_some_iff.mp hj
  split at hc
  · next hij => exact .inr ⟨d, hij ▸ hd, hc.symm⟩
  · exact .inl (hc ▸ List.mem_of_getElem? hd)

theorem flatMap_modify {calls : List AppendCall} {f : AppendCall → AppendCall}
    {g : AppendCall → List Byte} (h : ∀ c, g (f c) = g c) (i : ℕ) :
    (calls.modify i f).flatMap g = calls.flatMap g := by
  induction calls generalizing i with
  | nil => simp
  | cons c calls ih =>
    cases i with
    | zero => simp [h]
    | succ i => simp [ih]

variable {s : LoggingSystem}

@[simp] theorem returnCall_message (c : AppendCall) : (s.returnCall c).message = c.message := by
  unfold returnCall
  split <;> rfl

@[simp] theorem returnCall_round (c : AppendCall) : (s.returnCall c).round = c.round := by
  unfold returnCall
  split <;> rfl

theorem returnCall_inTime (h : s.stop ≠ .idle) {c : AppendCall}
    (hc : c.inTime = true → c.returned = true) : (s.returnCall c).inTime = c.inTime := by
  unfold returnCall
  split
  · rfl
  · next hr =>
    cases hi : c.inTime with
    | true => exact absurd (hc hi) hr
    | false => simp [h]

/-- How `running_`, the background thread and the `Stop()` call go together. -/
structure Ordered (s : LoggingSystem) : Prop where
  not_started : s.logging.phase = .notStarted → s.stop = .idle
  running_iff : s.logging.phase ≠ .notStarted →
    (s.logging.running = true ↔ s.stop = .idle ∨ s.stop = .called)
  exited : s.logging.phase = .exited → s.logging.running = false
  joined : s.stop = .returned → s.logging.phase = .exited
  returned : ∀ c ∈ s.calls, c.inTime = true → c.returned = true
  in_time : s.stop = .idle → ∀ c ∈ s.calls, c.returned = true → c.inTime = true

theorem Ordered.stop_ne_of_exited (h : s.Ordered) (hp : s.logging.phase = .exited) :
    s.stop ≠ .idle := by
  intro hs
  have hrun := (h.running_iff (by simp [hp])).mpr (.inl hs)
  simp [h.exited hp] at hrun

/-- `ThreadFunc` has not taken the buffers yet. -/
structure Fresh (s : LoggingSystem) : Prop where
  rounds_eq : s.rounds = 0
  phase_ne : s.logging.phase ≠ .write
  new1_eq : s.logging.newBuffer1 = some .new
  new2_eq : s.logging.newBuffer2 = some .new
  next_eq : s.logging.nextBuffer = some .new
  buffers_eq : s.logging.buffers = []
  toWrite_eq : s.logging.buffersToWrite = []
  output_eq : s.logging.output = []
  curr : ∃ b, s.logging.currBuffer = some b ∧ b.content = messages s.calls
  round_eq : ∀ c ∈ s.calls, c.round = 0
  left : s.logging.phase = .exited → ∀ c ∈ s.calls, c.inTime = false

def taken (s : LoggingSystem) : List Byte := messages (s.calls.filter fun c => c.round = 0)

/-- `ThreadFunc` has taken the buffers in its first round. -/
structure Taken (s : LoggingSystem) : Prop where
  rounds_eq : s.rounds = 1
  phase_mem : s.logging.phase = .write ∨ s.logging.phase = .test ∨ s.logging.phase = .exited
  new1_eq : s.logging.newBuffer1 = none
  new2_eq : s.logging.newBuffer2 = some .new
  curr : ∃ b, s.logging.currBuffer = some b
  writing : s.logging.phase = .write → s.logging.output = [] ∧
    ∃ b, s.logging.buffersToWrite = [some b] ∧ b.content = s.taken
  written : s.logging.phase ≠ .write →
    s.logging.buffersToWrite = [] ∧ s.logging.output = [.data s.taken]
  early : s.stop = .idle → ∀ c ∈ s.calls, 0 < c.round → c.returned = false
  late : s.stop ≠ .idle → ∀ c ∈ s.calls, c.inTime = true ↔ c.round = 0

structure Inv (s : LoggingSystem) : Prop where
  ordered : s.Ordered
  state : s.Fresh ∨ s.Taken

theorem new_inv : new.Inv where
  ordered := by constructor <;> simp [new, AsyncLogging.new]
  state := by
    refine .inl ⟨rfl, ?_, rfl, rfl, rfl, rfl, rfl, rfl, ⟨.new, rfl, rfl⟩, ?_, ?_⟩
    · simp [new, AsyncLogging.new]
    · simp [new]
    · simp [new]

theorem Inv.lossless (h : s.Inv) : s.Lossless := by
  intro hs
  have hexit := h.ordered.joined hs
  rcases h.state with hf | ht
  · have hnone : s.calls.filter AppendCall.inTime = [] := by
      rw [List.filter_eq_nil_iff]
      intro c hc
      simp [hf.left hexit c hc]
    rw [hf.output_eq, hnone]
    rfl
  · have hsame : s.calls.filter AppendCall.inTime = s.calls.filter fun c => c.round = 0 := by
      apply List.filter_congr
      intro c hc
      rw [Bool.eq_iff_iff, ht.late (by simp [hs]) c hc, decide_eq_true_iff]
    rw [(ht.written (by simp [hexit])).2, hsame]
    simp [LogItem.content, taken]

theorem append_eq {l : AsyncLogging} {b : FixedBuffer kLargeBuffer} (hb : l.currBuffer = some b)
    {m : List Byte} (hlt : m.length < kLargeBuffer)
    (h : (b.content ++ m).length ≤ kLargeBuffer) :
    l.append m = .ok { l with currBuffer := some ⟨b.content ++ m, h⟩ } := by
  have havail : b.avail ≠ 0 := Nat.ne_of_gt (Nat.lt_of_le_of_lt (Nat.zero_le _) hlt)
  rw [AsyncLogging.append, hb]
  simp only [if_pos havail, b.append_eq hlt h]
  rfl

/-- The system after the critical section of an `Append` that leaves `b` in `curr_buffer_`. -/
def appended (s : LoggingSystem) (m : List Byte) (b : FixedBuffer kLargeBuffer) : LoggingSystem :=
  { s with
    logging := { s.logging with currBuffer := some b }
    calls := s.calls ++ [⟨m, s.rounds, false, false⟩] }

variable {m : List Byte} {b : FixedBuffer kLargeBuffer}

theorem mem_appended {c : AppendCall} :
    c ∈ (s.appended m b).calls ↔ c ∈ s.calls ∨ c = ⟨m, s.rounds, false, false⟩ := by
  simp [appended]

theorem Ordered.appended (h : s.Ordered) : (s.appended m b).Ordered := by
  refine ⟨h.not_started, h.running_iff, h.exited, h.joined, fun c hc => ?_, fun hs c hc => ?_⟩
  · rcases mem_appended.mp hc with hc | rfl
    · exact h.returned c hc
    · exact id
  · rcases mem_appended.mp hc with hc | rfl
    · exact h.in_time hs c hc
    · exact id

theorem Fresh.appended (h : s.Fresh) (hb : b.content = messages s.calls ++ m) :
    (s.appended m b).Fresh := by
  refine ⟨h.rounds_eq, h.phase_ne, h.new1_eq, h.new2_eq, h.next_eq, h.buffers_eq, h.toWrite_eq,
    h.output_eq, ⟨b, rfl, ?_⟩, fun c hc => ?_, fun hp c hc => ?_⟩
  · rw [hb, LoggingSystem.appended, messages_append]
  · rcases mem_appended.mp hc with hc | rfl
    · exact h.round_eq c hc
    · exact h.rounds_eq
  · rcases mem_appended.mp hc with hc | rfl
    · exact h.left hp c hc
    · rfl

theorem Taken.appended (h : s.Taken) : (s.appended m b).Taken := by
  have htaken : (s.appended m b).taken = s.taken := by
    simp [taken, LoggingSystem.appended, List.filter_append, h.rounds_eq]
  refine ⟨h.rounds_eq, h.phase_mem, h.new1_eq, h.new2_eq, ⟨b, rfl⟩, ?_, ?_, fun hs c hc => ?_,
    fun hs c hc => ?_⟩
  · rw [htaken]
    exact h.writing
  · rw [htaken]
    exact h.written
  · rcases mem_appended.mp hc with hc | rfl
    · exact h.early hs c hc
    · exact fun _ => rfl
  · rcases mem_appended.mp hc with hc | rfl
    · exact h.late hs c hc
    · simp [h.rounds_eq]

theorem append_inv (h : s.Inv) (m : LogMessage) (hm : s.Timely (.append m)) :
    Yields (s.step (.append m)) Inv := by
  obtain ⟨b, hb⟩ : ∃ b, s.logging.currBuffer = some b := by
    rcases h.state with hf | ht
    · exact hf.curr.imp fun _ hc => hc.1
    · exact ht.curr
  have hfit : (b.content ++ m.val).length ≤ kLargeBuffer := by
    rw [List.length_append]
    exact hm b hb
  simp only [step, append_eq hb m.property hfit]
  refine yields_ok.mpr ⟨h.ordered.appended, ?_⟩
  rcases h.state with hf | ht
  · obtain ⟨b', hb', hcont⟩ := hf.curr
    rw [hb] at hb'
    cases hb'
    exact .inl (hf.appended (congrArg (· ++ m.val) hcont))
  · exact .inr ht.appended

def callReturned (s : LoggingSystem) (i : ℕ) : LoggingSystem :=
  { s with calls := s.calls.modify i s.returnCall }

theorem Ordered.callReturned (h : s.Ordered) (i : ℕ) : (s.callReturned i).Ordered := by
  refine ⟨h.not_started, h.running_iff, h.exited, h.joined, fun c hc => ?_, fun hs c hc => ?_⟩
  · rcases mem_modify hc with hc | ⟨d, hd, rfl⟩
    · exact h.returned c hc
    · unfold returnCall
      split
      · exact h.returned d (List.mem_of_getElem? hd)
      · exact fun _ => rfl
  · rcases mem_modify hc with hc | ⟨d, hd, rfl⟩
    · exact h.in_time hs c hc
    · unfold returnCall
      split
      · exact h.in_time hs d (List.mem_of_getElem? hd)
      · intro _
        exact decide_eq_true hs

theorem callReturned_messages (i : ℕ) : messages (s.callReturned i).calls = messages s.calls :=
  flatMap_modify (fun _ => returnCall_message _) i

theorem callReturned_taken (i : ℕ) : (s.callReturned i).taken = s.taken := by
  rw [taken, taken, messages_filter, messages_filter]
  apply flatMap_modify
  intro c
  simp

theorem Fresh.callReturned (h : s.Fresh) (ho : s.Ordered) (i : ℕ) : (s.callReturned i).Fresh := by
  refine ⟨h.rounds_eq, h.phase_ne, h.new1_eq, h.new2_eq, h.next_eq, h.buffers_eq, h.toWrite_eq,
    h.output_eq, ?_, fun c hc => ?_, fun hp c hc => ?_⟩
  · rw [callReturned_messages]
    exact h.curr
  · rcases mem_modify hc with hc | ⟨d, hd, rfl⟩
    · exact h.round_eq c hc
    · rw [returnCall_round]
      exact h.round_eq d (List.mem_of_getElem? hd)
  · rcases mem_modify hc with hc | ⟨d, hd, rfl⟩
    · exact h.left hp c hc
    · have hd' := List.mem_of_getElem? hd
      rw [returnCall_inTime (ho.stop_ne_of_exited hp) (ho.returned d hd')]
      exact h.left hp d hd'

theorem Taken.callReturned (h : s.Taken) (ho : s.Ordered) {i : ℕ}
    (hi : s.Timely (.appendReturns i)) : (s.callReturned i).Taken := by
  refine ⟨h.rounds_eq, h.phase_mem, h.new1_eq, h.new2_eq, h.curr, ?_, ?_, fun hs c hc => ?_,
    fun hs c hc => ?_⟩
  · rw [callReturned_taken]
    exact h.writing
  · rw [callReturned_taken]
    exact h.written
  · rcases mem_modify hc with hc | ⟨d, hd, rfl⟩
    · exact h.early hs c hc
    · rw [returnCall_round]
      exact fun hr => absurd hs (hi d hd hr)
  · rcases mem_modify hc with hc | ⟨d, hd, rfl⟩
    · exact h.late hs c hc
    · have hd' := List.mem_of_getElem? hd
      rw [returnCall_round, returnCall_inTime (s := s) hs (ho.returned d hd')]
      exact h.late hs d hd'

theorem Fresh.moved (h : s.Fresh) {phase : LoggingPhase} (running : Bool) (stop : StopPhase)
    (hp : phase ≠ .write) (hleft : phase = .exited → ∀ c ∈ s.calls, c.inTime = false) :
    Fresh { s with
      logging := { s.logging with running := running, phase := phase }, stop := stop } := by
  constructor
  · exact h.rounds_eq
  · exact hp
  · exact h.new1_eq
  · exact h.new2_eq
  · exact h.next_eq
  · exact h.buffers_eq
  · exact h.toWrite_eq
  · exact h.output_eq
  · exact h.curr
  · exact h.round_eq
  · exact hleft

theorem start_inv (h : s.Inv) (hp : s.logging.phase = .notStarted) :
    Inv { s with logging := s.logging.start } := by
  have hidle := h.ordered.not_started hp
  constructor
  · constructor
    · simp [AsyncLogging.start]
    · simp [AsyncLogging.start, hidle]
    · simp [AsyncLogging.start]
    · simp [hidle]
    · exact h.ordered.returned
    · exact h.ordered.in_time
  · rcases h.state with hf | ht
    · exact .inl (hf.moved true s.stop (by simp) (by simp))
    · rcases ht.phase_mem with hw | hw | hw <;> simp [hp] at hw

theorem Ordered.moved (h : s.Ordered) {l : AsyncLogging} (hp : s.logging.phase ≠ .notStarted)
    (hpe : s.logging.phase ≠ .exited) (hl : l.phase ≠ .notStarted) (hle : l.phase ≠ .exited)
    (hr : l.running = s.logging.running) : Ordered { s with logging := l } := by
  constructor
  · exact fun hl' => absurd hl' hl
  · intro _
    change l.running = true ↔ _
    rw [hr]
    exact h.running_iff hp
  · exact fun hl' => absurd hl' hle
  · exact fun hs => absurd (h.joined hs) hpe
  · exact h.returned
  · exact h.in_time

theorem Ordered.enter {l : AsyncLogging} (h : Ordered { s with logging := l }) :
    (s.enter l).Ordered :=
  ⟨h.not_started, h.running_iff, h.exited, h.joined, h.returned, h.in_time⟩

theorem exit_inv (h : s.Inv) (hp : s.logging.phase = .test) (hr : s.logging.running = false)
    (hl : s.Timely .testRunning) :
    Inv { s with logging := { s.logging with phase := .exited } } := by
  constructor
  · refine ⟨?_, ?_, fun _ => hr, fun _ => rfl, h.ordered.returned, h.ordered.in_time⟩
    · simp
    · exact fun _ => h.ordered.running_iff (by simp [hp])
  · rcases h.state with hf | ht
    · exact .inl (hf.moved _ s.stop (by simp) fun _ => (hl hp).1 hf.rounds_eq hr)
    · refine .inr ⟨ht.rounds_eq, ?_, ht.new1_eq, ht.new2_eq, ht.curr, ?_, ?_, ht.early, ht.late⟩
      · exact .inr (.inr rfl)
      · simp
      · exact fun _ => ht.written (by simp [hp])

theorem testRunning_inv (h : s.Inv) (hp : s.logging.phase = .test)
    (hl : s.Timely .testRunning) :
    Yields (s.logging.testRunning >>= fun l => pure { s with logging := l }) Inv := by
  cases hr : s.logging.running with
  | false =>
    have htest : s.logging.testRunning = .ok { s.logging with phase := .exited } := by
      rw [AsyncLogging.testRunning, if_neg (by simp [hr])]
      rfl
    rw [htest]
    exact yields_ok.mpr (exit_inv h hp hr hl)
  | true =>
    rcases h.state with hf | ht
    · have h1 : AsyncLogging.isEmptyBuffer s.logging.newBuffer1 = true := by
        rw [hf.new1_eq]
        rfl
      have h2 : AsyncLogging.isEmptyBuffer s.logging.newBuffer2 = true := by
        rw [hf.new2_eq]
        rfl
      have htest : s.logging.testRunning = .ok { s.logging with phase := .lock } := by
        rw [AsyncLogging.testRunning, if_pos hr, check_bind_of_true h1, check_bind_of_true h2,
          check_bind_of_true hf.toWrite_eq]
        rfl
      rw [htest]
      apply yields_ok.mpr
      constructor
      · exact h.ordered.moved (by simp [hp]) (by simp [hp]) (by simp) (by simp) rfl
      · exact .inl (hf.moved _ s.stop (by simp) (by simp))
    · have := (hl hp).2 (by simp [ht.rounds_eq])
      simp [hr] at this

theorem Taken.phase_ne (h : s.Taken) : s.logging.phase ≠ .lock ∧ s.logging.phase ≠ .wait := by
  rcases h.phase_mem with hp | hp | hp <;> simp [hp]

theorem lock_inv (h : s.Inv) (hp : s.logging.phase = .lock) : Inv (s.enter s.logging.lock) := by
  rcases h.state with hf | ht
  · have hlock : s.logging.lock = { s.logging with phase := .wait } := by
      rw [AsyncLogging.lock, if_pos hf.buffers_eq]
    rw [hlock]
    constructor
    · exact h.ordered.moved (by simp [hp]) (by simp [hp]) (by simp) (by simp) rfl
    · exact .inl (hf.moved _ s.stop (by simp) (by simp))
  · exact absurd hp ht.phase_ne.1

/-- In its first round `ThreadFunc` takes `curr_buffer_` with every message appended so far. -/
theorem wake_inv (h : s.Inv) (hp : s.logging.phase = .wait) (hl : s.Timely .wake) :
    Inv (s.enter s.logging.swapBuffers) := by
  rcases h.state with hf | ht
  · obtain ⟨b, hb, hcont⟩ := hf.curr
    refine ⟨?_, .inr ⟨?_, .inl rfl, rfl, ?_, ?_, fun _ => ?_, ?_, ?_, ?_⟩⟩
    · exact (h.ordered.moved (l := s.logging.swapBuffers) (by simp [hp]) (by simp [hp])
        (by simp [AsyncLogging.swapBuffers]) (by simp [AsyncLogging.swapBuffers]) rfl).enter
    · simp [enter, AsyncLogging.swapBuffers, hf.rounds_eq]
    · simp [enter, AsyncLogging.swapBuffers, hf.next_eq, hf.new2_eq]
    · exact ⟨.new, by simp [enter, AsyncLogging.swapBuffers, hf.new1_eq]⟩
    · refine ⟨hf.output_eq, b, ?_, hcont.trans ?_⟩
      · simp [enter, AsyncLogging.swapBuffers, hf.buffers_eq, hb]
      · have hall : s.calls.filter (fun c => decide (c.round = 0)) = s.calls := by
          rw [List.filter_eq_self]
          intro c hc
          simp [hf.round_eq c hc]
        simp only [taken, enter, hall]
    · simp [enter, AsyncLogging.swapBuffers]
    · intro _ c hc hr
      simp [hf.round_eq c hc] at hr
    · intro hs c hc
      simp [hf.round_eq c hc, hl hp hs c hc]
  · exact absurd hp ht.phase_ne.2

theorem write_inv (h : s.Inv) (hp : s.logging.phase = .write) :
    Yields (s.logging.write >>= fun l => pure { s with logging := l }) Inv := by
  rcases h.state with hf | ht
  · exact absurd hp hf.phase_ne
  · obtain ⟨hout, b, hb, hcont⟩ := ht.writing hp
    have hwrite : s.logging.write = .ok { s.logging with
        phase := .test, newBuffer1 := none, newBuffer2 := some .new, buffersToWrite := []
        output := [.data b.content] } := by
      simp only [AsyncLogging.write, hb, ht.new1_eq, ht.new2_eq, hout]
      rfl
    rw [hwrite]
    refine yields_ok.mpr ⟨?_, .inr ⟨ht.rounds_eq, .inr (.inl rfl), rfl, rfl, ht.curr, ?_, ?_,
      ht.early, ht.late⟩⟩
    · exact h.ordered.moved (by simp [hp]) (by simp [hp]) (by simp) (by simp) rfl
    · simp
    · rw [hcont]
      exact fun _ => ⟨rfl, rfl⟩

theorem callStop_inv (h : s.Inv) (hs : s.stop = .idle) (hp : s.logging.phase ≠ .notStarted)
    (hl : s.Timely .callStop) : Inv { s with stop := .called } := by
  have hrun := (h.ordered.running_iff hp).mpr (.inl hs)
  constructor
  · refine ⟨fun hp' => absurd hp' hp, fun _ => ?_, h.ordered.exited, ?_, h.ordered.returned, ?_⟩
    · simp [hrun]
    · simp
    · simp
  · rcases h.state with hf | ht
    · exact .inl (hf.moved _ _ hf.phase_ne hf.left)
    · refine .inr ⟨ht.rounds_eq, ht.phase_mem, ht.new1_eq, ht.new2_eq, ht.curr, ht.writing,
        ht.written, ?_, fun _ c hc => ?_⟩
      · simp
      · constructor
        · intro hi
          by_contra hr
          have := ht.early hs c hc (Nat.pos_of_ne_zero hr)
          simp [h.ordered.returned c hc hi] at this
        · intro hr
          exact h.ordered.in_time hs c hc (hl hs (by simp [ht.rounds_eq]) c hc hr)

theorem Inv.stopping (h : s.Inv) (hs : s.stop ≠ .idle) {stop : StopPhase} (hs' : stop ≠ .idle)
    {running : Bool} :
    Fresh { s with logging := { s.logging with running := running }, stop := stop } ∨
      Taken { s with logging := { s.logging with running := running }, stop := stop } := by
  rcases h.state with hf | ht
  · exact .inl (hf.moved _ _ hf.phase_ne hf.left)
  · exact .inr ⟨ht.rounds_eq, ht.phase_mem, ht.new1_eq, ht.new2_eq, ht.curr, ht.writing,
      ht.written, fun h' => absurd h' hs', fun _ => ht.late hs⟩

theorem clearRunning_inv (h : s.Inv) (hs : s.stop = .called) :
    Inv { s with logging := { s.logging with running := false }, stop := .stopped } := by
  refine ⟨⟨fun hp => ?_, fun _ => ?_, fun _ => rfl, ?_, h.ordered.returned, ?_⟩,
    h.stopping (by simp [hs]) (by simp)⟩
  · have := h.ordered.not_started hp
    simp [hs] at this
  · simp
  · simp
  · simp

theorem joinReturns_inv (h : s.Inv) (hs : s.stop = .stopped) (hp : s.logging.phase = .exited) :
    Inv { s with stop := .returned } := by
  refine ⟨⟨?_, fun _ => ?_, h.ordered.exited, fun _ => hp, h.ordered.returned, ?_⟩,
    h.stopping (by simp [hs]) (by simp)⟩
  · simp [hp]
  · simp [h.ordered.exited hp]
  · simp

theorem step_inv (s : LoggingSystem) (x : LoggingLabel) (h : s.Inv) (hx : s.Timely x) :
    Yields (s.step x) Inv := by
  cases x with
  | append m => exact append_inv h m hx
  | appendReturns i =>
    refine yields_pure.mpr ⟨h.ordered.callReturned i, ?_⟩
    rcases h.state with hf | ht
    · exact .inl (hf.callReturned h.ordered i)
    · exact .inr (ht.callReturned h.ordered hx)
  | start =>
    simp only [step]
    split
    · next hp => exact yields_pure.mpr (start_inv h hp)
    · exact yields_pure.mpr h
  | testRunning =>
    simp only [step]
    split
    · next hp => exact testRunning_inv h hp hx
    · exact yields_pure.mpr h
  | lock =>
    simp only [step]
    split
    · next hp => exact yields_pure.mpr (lock_inv h hp)
    · exact yields_pure.mpr h
  | wake =>
    simp only [step]
    split
    · next hp => exact yields_pure.mpr (wake_inv h hp hx)
    · exact yields_pure.mpr h
  | write =>
    simp only [step]
    split
    · next hp => exact write_inv h hp
    · exact yields_pure.mpr h
  | callStop =>
    simp only [step]
    split
    · next hp => exact yields_pure.mpr (callStop_inv h hp.1 hp.2 hx)
    · exact yields_pure.mpr h
  | clearRunning =>
    simp only [step]
    split
    · next hp => exact yields_pure.mpr (clearRunning_inv h hp)
    · exact yields_pure.mpr h
  | joinReturns =>
    simp only [step]
    split
    · next hp => exact yields_pure.mpr (joinReturns_inv h hp.1 hp.2)
    · exact yields_pure.mpr h

/-- In a timely run nothing is lost, nothing is written twice, and no assertion fails. -/
theorem logging_lossless (labels : List LoggingLabel) (h : Along step Timely new labels) :
    Yields (run step new labels) Lossless :=
  (run_invariant step_inv new_inv h).mono fun _ hs => hs.lossless

theorem logging_lossless_one_round :
    Yields (run step new [.start, .append ⟨[1, 2], by decide⟩, .appendReturns 0, .testRunning,
      .lock, .callStop, .clearRunning, .wake, .write, .testRunning, .joinReturns]) Lossless := by
  apply logging_lossless
  refine ⟨trivial, fun s hs => ?_⟩
  cases hs
  refine ⟨?_, fun s hs => ?_⟩
  · intro b hb
    cases hb
    decide
  cases hs
  refine ⟨?_, fun s hs => ?_⟩
  · intro c hc hr
    cases hc
    simp [new] at hr
  cases hs
  refine ⟨?_, fun s hs => ?_⟩
  · intro _
    constructor
    · intro _ hr
      cases hr
    · intro hr
      cases hr
  cases hs
  refine ⟨trivial, fun s hs => ?_⟩
  cases hs
  refine ⟨?_, fun s hs => ?_⟩
  · intro _ hr
    cases hr
  cases hs
  refine ⟨trivial, fun s hs => ?_⟩
  cases hs
  refine ⟨?_, fun s hs => ?_⟩
  · intro _ _ c hc
    cases List.mem_singleton.mp hc
    rfl
  cases hs
  refine ⟨trivial, fun s hs => ?_⟩
  cases hs
  refine ⟨?_, fun s hs => ⟨trivial, fun _ _ => trivial⟩⟩
  intro _
  constructor
  · intro hr
    cases hr
  · exact fun _ => rfl

/-- A message appended after the buffers have been taken and before `Stop()` is not written. -/
theorem message_lost_after_swap :
    ¬ Yields (run step new [.start, .testRunning, .lock, .wake, .append ⟨[1], by decide⟩,
      .appendReturns 0, .write, .callStop, .clearRunning, .testRunning, .joinReturns])
      Lossless := by
  rintro ⟨s, hs, hl⟩
  cases hs
  have := hl rfl
  revert this
  decide

end LoggingSystem

end Dwater
