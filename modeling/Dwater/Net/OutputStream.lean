import Dwater.Net.TcpConnection

/-! # The output of a connection is a byte stream

`SendInLoop` and `HandleWrite` move bytes from the caller to the kernel, directly or
through the output buffer. The bytes already taken by the kernel followed by the
backlog are always the concatenation of the messages sent, whatever short writes and
soft errors the kernel answers with.
-/

set_option autoImplicit false
namespace Dwater

open Fallible Buffer

namespace TcpConnection

variable {c : TcpConnection} {q data : List Byte} {w : WriteResult}

def Effect.IsOutput : Effect → Prop
  | .write _ => True
  | .queueInLoop .writeCompleteCallback => True
  | .queueInLoop (.highWaterMarkCallback _) => True
  | _ => False

theorem queueWriteComplete_output {e : Effect} (h : e ∈ c.queueWriteComplete) :
    Effect.IsOutput e := by
  unfold queueWriteComplete at h
  split at h
  · rw [List.mem_singleton.mp h]; trivial
  · cases h

theorem queueHighWaterMark_output {e : Effect} {n : ℕ} (h : e ∈ c.queueHighWaterMark n) :
    Effect.IsOutput e := by
  unfold queueHighWaterMark at h
  simp only at h
  split at h
  · rw [List.mem_singleton.mp h]; trivial
  · cases h

@[simp] theorem written_queueWriteComplete : written c.queueWriteComplete = [] := by
  unfold queueWriteComplete; split <;> rfl

@[simp] theorem written_queueHighWaterMark (n : ℕ) : written (c.queueHighWaterMark n) = [] := by
  unfold queueHighWaterMark; simp only; split <;> rfl

theorem directWrite_output {e : Effect} (h : e ∈ c.directWrite data w) : Effect.IsOutput e := by
  rcases List.mem_cons.mp h with rfl | h
  · trivial
  · split at h
    · split at h
      · exact queueWriteComplete_output h
      · cases h
    · cases h

@[simp] theorem written_directWrite : written (c.directWrite data w) = data.take w.count := by
  unfold directWrite
  rw [written_cons_write]
  split
  · split <;> simp
  · simp

/-- What `SendInLoop` leaves behind. -/
structure SendPost (c : TcpConnection) (q data : List Byte) (w : WriteResult)
    (r : TcpConnection × List Effect) : Prop where
  state_eq : r.1.state = c.state
  reading_eq : r.1.reading = c.reading
  input_eq : r.1.inputBuffer = c.inputBuffer
  isReading_eq : r.1.channel.isReading = c.channel.isReading
  output : ∀ e ∈ r.2, Effect.IsOutput e
  backlog : ∃ q', r.1.outputBuffer.Represents q' ∧
    ((c.writesDirectly && w.faultError) = false → written r.2 ++ q' = q ++ data) ∧
    ((r.1.channel = c.channel ∧ q' = q) ∨ (r.1.channel.isWriting = true ∧ q' ≠ []))

theorem sendRest_yields (h : c.outputBuffer.Represents q) (rest : List Byte) :
    Yields (c.sendRest rest) fun c' => c'.state = c.state ∧ c'.reading = c.reading ∧
      c'.inputBuffer = c.inputBuffer ∧ c'.outputBuffer.Represents (q ++ rest) ∧
      c'.channel.isWriting = true ∧ c'.channel.isReading = c.channel.isReading := by
  refine yields_bind (append_represents h rest) fun b hb => ?_
  refine yields_pure.mpr ⟨rfl, rfl, rfl, hb, ?_⟩
  dsimp only
  split
  · exact ⟨by assumption, rfl⟩
  · exact ⟨Channel.isWriting_enableWriting _, Channel.isReading_enableWriting _⟩

theorem writesDirectly_iff (h : c.outputBuffer.Represents q) :
    c.writesDirectly = true ↔ c.channel.isWriting = false ∧ q = [] := by
  simp [writesDirectly, ← h.length]

theorem sendInLoop_yields (h : c.outputBuffer.Represents q) (hs : c.state ≠ .kdisconnected) :
    Yields (c.sendInLoop data w) (SendPost c q data w) := by
  unfold sendInLoop
  simp only [if_neg hs, check_bind_of_true (Nat.sub_le _ _)]
  have hd := writesDirectly_iff h
  -- in both cases the rest of the message is stored behind the backlog, if there is any
  cases hdir : c.writesDirectly with
  | true =>
    obtain ⟨-, rfl⟩ := hd.mp hdir
    simp only [Bool.true_and, if_true]
    split
    · next hrem =>
      refine yields_bind (sendRest_yields h _) fun c' hc' => yields_pure.mpr ?_
      refine ⟨hc'.1, hc'.2.1, hc'.2.2.1, hc'.2.2.2.2.2, fun e he => ?_, _, hc'.2.2.2.1,
        fun _ => ?_, .inr ?_⟩
      · rcases List.mem_append.mp he with he | he
        · exact directWrite_output he
        · exact queueHighWaterMark_output he
      · simp
      · refine ⟨hc'.2.2.2.2.1, fun hnil => ?_⟩
        have := congrArg List.length hnil
        simp at this
        omega
    · next hrem =>
      refine yields_pure.mpr ⟨rfl, rfl, rfl, rfl, fun e => directWrite_output, [], h, fun hf => ?_,
        .inl ⟨rfl, rfl⟩⟩
      have hle : data.length ≤ w.count := by
        by_contra hlt
        exact hrem ⟨by simpa [hdir] using hf, by omega⟩
      simp [List.take_of_length_le hle]
  | false =>
    simp only [Bool.false_and, Bool.false_eq_true, if_false, List.nil_append, List.drop_zero,
      Nat.sub_zero, true_and]
    split
    · next hpos =>
      refine yields_bind (sendRest_yields h _) fun c' hc' => yields_pure.mpr ?_
      refine ⟨hc'.1, hc'.2.1, hc'.2.2.1, hc'.2.2.2.2.2, fun e he => queueHighWaterMark_output he, _,
        hc'.2.2.2.1, fun _ => by simp, .inr ⟨hc'.2.2.2.2.1, fun hnil => ?_⟩⟩
      rw [(List.append_eq_nil_iff.mp hnil).2] at hpos
      exact absurd hpos (by simp)
    · next hpos =>
      have hnil : data = [] := List.eq_nil_of_length_eq_zero (by omega)
      refine yields_pure.mpr ⟨rfl, rfl, rfl, rfl, by simp, q, h, fun _ => by simp [hnil],
        .inl ⟨rfl, rfl⟩⟩

theorem sendInLoop_gives_up (hs : c.state ≠ .kdisconnected)
    (hgive : (c.writesDirectly && w.faultError) = true) :
    c.sendInLoop data w = .ok (c, c.directWrite data w) := by
  obtain ⟨hdir, hfault⟩ := Bool.and_eq_true_iff.mp hgive
  unfold sendInLoop
  simp only [if_neg hs, check_bind_of_true (Nat.sub_le _ _), hdir, hfault, Bool.true_and,
    Bool.true_eq_false, false_and, if_false, if_true]
  rfl

/-- The three ways through `HandleWrite`: no progress, a part of the backlog, all of it. -/
inductive WritePost (c : TcpConnection) (q : List Byte) (w : WriteResult) :
    TcpConnection × List Effect → Prop

  | idle : WritePost c q w (c, [])

  | some {b : Buffer} : c.channel.isWriting = true → 0 < w.count → w.count < q.length →
      b.Represents (q.drop w.count) →
      WritePost c q w ({ c with outputBuffer := b }, [.write (q.take w.count)])

  | all {b : Buffer} : c.channel.isWriting = true → w.count = q.length → b.Represents [] →
      WritePost c q w ({ c with outputBuffer := b, channel := c.channel.disableWriting },
        .write q :: c.queueWriteComplete ++
          if c.state = .kdisconnecting then [.shutdownWrite] else [])

theorem handleWrite_yields (h : c.outputBuffer.Represents q) (hw : w.Within q.length) :
    Yields (c.handleWrite w) (WritePost c q w) := by
  unfold handleWrite
  split
  · next hi =>
    split
    · next hpos =>
      rw [h.2]
      refine yields_bind (retrieve_represents h hw) fun b hb => ?_
      have hlen := hb.length
      rw [List.length_drop] at hlen
      dsimp only
      split
      · next hz =>
        have hall : w.count = q.length := by unfold WriteResult.Within at hw; omega
        rw [hall, List.drop_length] at hb
        rw [hall, List.take_length, shutdownInLoop, Channel.isWriting_disableWriting]
        exact yields_pure.mpr (.all hi hall hb)
      · next hz => exact yields_pure.mpr (.some hi hpos (by omega) hb)
    · exact yields_pure.mpr .idle
  · exact yields_pure.mpr .idle

theorem WritePost.state_eq {r : TcpConnection × List Effect} (h : WritePost c q w r) :
    r.1.state = c.state := by cases h <;> rfl

/-- Bytes leave the front of the backlog in order. -/
theorem WritePost.backlog {r : TcpConnection × List Effect} (hq : c.outputBuffer.Represents q)
    (h : WritePost c q w r) :
    ∃ q', r.1.outputBuffer.Represents q' ∧ written r.2 ++ q' = q := by
  cases h with
  | idle => exact ⟨q, hq, rfl⟩
  | some _ _ _ hb => exact ⟨_, hb, by simp⟩
  | all _ _ hb =>
    refine ⟨[], hb, ?_⟩
    have hl : written (if c.state = .kdisconnecting then [Effect.shutdownWrite] else []) = [] := by
      split <;> rfl
    simp [hl]

end TcpConnection

open TcpConnection

/-- A connection together with the bytes the kernel has taken from it and the messages passed
to `SendInLoop`. -/
structure Output where
  conn : TcpConnection
  accepted : List Byte
  sent : List Byte

/-- The steps that touch the output, and any change of the state by another method. -/
inductive OutputStep
  | sendInLoop (message : List Byte) (w : WriteResult)
  | handleWrite (w : WriteResult)
  | setState (state : StateE)

def OutputStep.message : OutputStep → List Byte
  | .sendInLoop message _ => message
  | _ => []

namespace Output

def after (s : Output) (message : List Byte) (r : TcpConnection × List Effect) : Output :=
  ⟨r.1, s.accepted ++ written r.2, s.sent ++ message⟩

def step (s : Output) (x : OutputStep) : Except Fault Output :=
  match x with
  | .sendInLoop message w => s.after x.message <$> s.conn.sendInLoop message w
  | .handleWrite w => s.after x.message <$> s.conn.handleWrite w
  | .setState state => return { s with conn := s.conn.setState state }

/-- The connection is not disconnected, and a write takes at most what it is given or
fails with an error other than `EPIPE` and `ECONNRESET`. -/
def Allowed (s : Output) : OutputStep → Prop
  | .sendInLoop message w => s.conn.state ≠ .kdisconnected ∧ w.Retryable message.length
  | .handleWrite w => s.conn.state ≠ .kdisconnected ∧
      w.Retryable s.conn.outputBuffer.readableBytes
  | .setState state => state ≠ .kdisconnected

/-- A direct write of a message fails with an error that is logged, and the log leaves `EPIPE`
or `ECONNRESET` in `errno`. -/
def LosesErrno (s : Output) : OutputStep → Prop
  | .sendInLoop message w => message ≠ [] ∧ s.conn.channel.isWriting = false ∧
      s.conn.outputBuffer.readableBytes = 0 ∧
      ∃ errno logged, w = .error errno logged ∧ errno ≠ .ewouldblock ∧
        (logged = .epipe ∨ logged = .econnreset)
  | _ => False

/-- What was taken and what is waiting make up what was sent. -/
def IsStream (s : Output) : Prop := s.accepted ++ s.conn.outputBuffer.content = s.sent

def Inv (s : Output) : Prop := s.conn.outputBuffer.Inv ∧ s.IsStream

variable {s : Output} {message : List Byte} {w : WriteResult}

theorem losesErrno_iff (h : s.conn.outputBuffer.Inv) :
    s.LosesErrno (.sendInLoop message w) ↔
      message ≠ [] ∧ (s.conn.writesDirectly && w.faultError) = true := by
  rw [Bool.and_eq_true, writesDirectly_iff h.represents, WriteResult.faultError_iff,
    LosesErrno, and_assoc, ← h.length_content, List.length_eq_zero_iff]

theorem step_gives_up (hs : s.conn.state ≠ .kdisconnected)
    (hgive : (s.conn.writesDirectly && w.faultError) = true) :
    s.step (.sendInLoop message w) = .ok { s with sent := s.sent ++ message } := by
  have hw : w.count = 0 := WriteResult.count_of_faultError (Bool.and_eq_true_iff.mp hgive).2
  have hwritten : written (s.conn.directWrite message w) = [] := by
    rw [written_directWrite, hw, List.take_zero]
  rw [step, sendInLoop_gives_up hs hgive]
  simp [Except.map, Functor.map, after, OutputStep.message, hwritten]

theorem sendInLoop_stream (h : s.Inv) (hs : s.conn.state ≠ .kdisconnected) :
    Yields (s.step (.sendInLoop message w)) fun t => t.conn.outputBuffer.Inv ∧
      (¬ s.LosesErrno (.sendInLoop message w) → t.IsStream) := by
  obtain ⟨hinv, hsent⟩ := h
  rw [losesErrno_iff hinv]
  cases hgive : s.conn.writesDirectly && w.faultError with
  | true =>
    refine ⟨_, step_gives_up hs hgive, hinv, fun hnil => ?_⟩
    obtain rfl : message = [] := by simpa using hnil
    simpa [IsStream] using hsent
  | false =>
    refine yields_map (sendInLoop_yields hinv.represents hs) fun r hr => ?_
    obtain ⟨q', hq', hb, -⟩ := hr.backlog
    refine ⟨hq'.1, fun _ => ?_⟩
    have he := hb hgive
    calc s.accepted ++ written r.2 ++ r.1.outputBuffer.content
        = s.accepted ++ (written r.2 ++ q') := by rw [hq'.2, List.append_assoc]
      _ = s.sent ++ message := by rw [he, ← List.append_assoc, hsent]

theorem step_good (s : Output) (x : OutputStep) (h : s.Inv) (hx : s.Allowed x)
    (hgood : ¬ s.LosesErrno x) : Yields (s.step x) Inv := by
  cases x with
  | sendInLoop message w =>
    exact (sendInLoop_stream h hx.1).mono fun t ht => ⟨ht.1, ht.2 hgood⟩
  | handleWrite w =>
    obtain ⟨hinv, hsent⟩ := h
    have hw : w.Within s.conn.outputBuffer.content.length := hinv.length_content ▸ hx.2.1
    refine yields_map (handleWrite_yields hinv.represents hw) fun r hr => ?_
    obtain ⟨q', hq', he⟩ := hr.backlog hinv.represents
    refine ⟨hq'.1, ?_⟩
    calc s.accepted ++ written r.2 ++ r.1.outputBuffer.content
        = s.accepted ++ (written r.2 ++ q') := by rw [hq'.2, List.append_assoc]
      _ = s.sent ++ [] := by rw [he, hsent, List.append_nil]
  | setState state => exact yields_pure.mpr h

/-- A message that is given up is missing from the stream. -/
theorem step_bad (s : Output) (x : OutputStep) (h : s.Inv) (hx : s.Allowed x)
    (hbad : ¬ ¬ s.LosesErrno x) : ¬ Yields (s.step x) IsStream := by
  cases x with
  | sendInLoop message w =>
    obtain ⟨hinv, hsent⟩ := h
    obtain ⟨hne, hgive⟩ := (losesErrno_iff hinv).mp (not_not.mp hbad)
    rintro ⟨t, ht, hstream⟩
    rw [step_gives_up hx.1 hgive] at ht
    cases ht
    have hlost : s.sent = s.sent ++ message := hsent.symm.trans hstream
    exact hne (by simpa using hlost)
  | _ => exact absurd id hbad

end Output

open Output

/--
The bytes the kernel has accepted, followed by the backlog, are the messages passed to
`SendInLoop`, in order, all along a run exactly when no step of it writes a message directly,
fails and finds `EPIPE` or `ECONNRESET` in `errno` behind the log line.
-/
theorem output_is_byte_stream_iff (c : TcpConnection) (hc : c.outputBuffer.Represents [])
    (steps : List OutputStep) (h : Along Output.step Output.Allowed ⟨c, [], []⟩ steps) :
    (∀ n, Yields (run Output.step ⟨c, [], []⟩ (steps.take n)) Output.IsStream) ↔
      Along Output.step (fun s x => ¬ s.LosesErrno x) ⟨c, [], []⟩ steps :=
  run_take_iff step_good step_bad (fun _ hi => hi.2) ⟨hc.1, by simp [IsStream, hc.2]⟩ h

def idleConnection : TcpConnection :=
  { state := .kconnected, reading := true, channel := (Channel.new 7).enableReading,
    writeCompleteCallback := false, highWaterMarkCallback := false, highWaterMark := 4,
    inputBuffer := ⟨List.replicate 8 0, 8, 8⟩, outputBuffer := ⟨List.replicate 8 0, 8, 8⟩ }

/-- A short write, a write the kernel refuses with an error that is logged, a drain. -/
theorem output_is_byte_stream_iff_partial_write :
    Yields (run Output.step ⟨idleConnection, [], []⟩
      [.sendInLoop [1, 2, 3] (.error (.other 105) (.other 105)), .sendInLoop [4] (.wrote 0),
        .handleWrite (.wrote 3)]) Output.IsStream := by
  refine (output_is_byte_stream_iff idleConnection ⟨⟨by decide, by decide, by decide⟩, rfl⟩
    [.sendInLoop [1, 2, 3] (.error (.other 105) (.other 105)), .sendInLoop [4] (.wrote 0),
      .handleWrite (.wrote 3)] ?_).mpr ?_ 3
  · refine along_cons ⟨by decide, Nat.zero_le _, ?_⟩ rfl (along_cons ⟨by decide, Nat.zero_le _, ?_⟩
      rfl ⟨⟨by decide, show (3 : ℕ) ≤ 4 by decide, ?_⟩, fun _ _ => trivial⟩)
    · rintro _ _ ⟨⟩
      exact ⟨by decide, by decide⟩
    · rintro _ _ ⟨⟩
    · rintro _ _ ⟨⟩
  · refine along_cons ?_ rfl (along_cons ?_ rfl ⟨id, fun _ _ => trivial⟩)
    · rintro ⟨-, -, -, _, _, ⟨⟩, -, hl⟩
      simp at hl
    · rintro ⟨-, -, -, _, _, ⟨⟩, -⟩

/-- `ENOBUFS` is no broken connection, but the log line that reports it fails with `EPIPE`. -/
theorem soft_error_loses_message :
    Along Output.step Output.Allowed ⟨idleConnection, [], []⟩
        [.sendInLoop [1] (.error (.other 105) .epipe)] ∧
      ¬ Yields (run Output.step ⟨idleConnection, [], []⟩
        [.sendInLoop [1] (.error (.other 105) .epipe)]) Output.IsStream := by
  constructor
  · refine ⟨⟨by decide, Nat.zero_le _, ?_⟩, fun _ _ => trivial⟩
    rintro _ _ ⟨⟩
    exact ⟨by decide, by decide⟩
  · rintro ⟨t, ht, hstream⟩
    cases ht
    exact absurd (show ([] : List Byte) = [1] from hstream) (by decide)

end Dwater
