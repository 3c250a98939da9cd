import Dwater.Net.OutputStream

/-! # The backlog and the interest in writing

`SendInLoop` starts to wait for writability when it leaves something in the output buffer
and `HandleWrite` stops when it has emptied it. While a connection is open, its channel
therefore waits for writability exactly when the output buffer is not empty, in whatever
order the methods are called and whatever the kernel answers.
-/

set_option autoImplicit false
namespace Dwater

open Fallible Buffer

/-- A call of a method of the connection, with the answers of the kernel. The user callbacks that
a method makes come after it as calls of their own. -/
inductive ConnectionStep
  | configure (writeCompleteCallback highWaterMarkCallback : Bool) (highWaterMark : ℕ)
  | connectionEstablished
  | send (inLoopThread : Bool) (message : List Byte) (w : WriteResult)
  | sendInLoop (message : List Byte) (w : WriteResult)
  | shutdown
  | shutdownInLoop
  | forceClose
  | forceCloseInLoop
  | startReadInLoop
  | stopReadInLoop
  | handleRead (r : ReadvResult)
  | handleWrite (w : WriteResult)
  | handleClose
  | connectionDestroyed
  | removeChannel

namespace TcpConnection

def call (c : TcpConnection) : ConnectionStep → Except Fault (TcpConnection × List Effect)
  | .configure wc hw mark =>
    return ({ c with writeCompleteCallback := wc, highWaterMarkCallback := hw
                     highWaterMark := mark }, [])
  | .connectionEstablished => c.connectionEstablished
  | .send inLoopThread message w => c.send inLoopThread message w
  | .sendInLoop message w => c.sendInLoop message w
  | .shutdown => return c.shutdown
  | .shutdownInLoop => return (c, c.shutdownInLoop)
  | .forceClose => return c.forceClose
  | .forceCloseInLoop => c.forceCloseInLoop
  | .startReadInLoop => return (c.startReadInLoop, [])
  | .stopReadInLoop => return (c.stopReadInLoop, [])
  | .handleRead r => c.handleRead r
  | .handleWrite w => c.handleWrite w
  | .handleClose => c.handleClose
  | .connectionDestroyed => return c.connectionDestroyed
  | .removeChannel => do return (← c.removeChannel, [])

def step (c : TcpConnection) (x : ConnectionStep) : Except Fault TcpConnection :=
  Prod.fst <$> c.call x

/-- Unless the connection is closed, the channel waits for writability exactly when there is a
backlog. -/
structure Watched (c : TcpConnection) : Prop where
  buffer : c.outputBuffer.Inv
  iff_backlog : c.state ≠ .kdisconnected →
    (c.channel.isWriting = true ↔ 0 < c.outputBuffer.readableBytes)

variable {c : TcpConnection} {w : WriteResult} {r : TcpConnection × List Effect}

theorem new_watched {sockfd : ℕ} (h : new sockfd = .ok c) : c.Watched := by
  obtain ⟨_, _, h⟩ := bind_eq_ok h
  obtain ⟨b, hb, h⟩ := bind_eq_ok h
  have hrep : b.Represents [] := (new_represents kinitialSize).of_eq hb
  cases h
  refine ⟨hrep.1, fun _ => ?_⟩
  rw [← hrep.length]
  simp [Channel.new, Channel.isWriting]

theorem Watched.keep {d : TcpConnection} (h : c.Watched)
    (hw : d.channel.isWriting = c.channel.isWriting) (hb : d.outputBuffer = c.outputBuffer)
    (hs : d.state ≠ .kdisconnected → c.state ≠ .kdisconnected) : d.Watched := by
  refine ⟨hb ▸ h.buffer, fun hd => ?_⟩
  rw [hw, hb]
  exact h.iff_backlog (hs hd)

theorem Watched.close {d : TcpConnection} (h : c.Watched) (hb : d.outputBuffer = c.outputBuffer)
    (hs : d.state = .kdisconnected) : d.Watched :=
  ⟨hb ▸ h.buffer, fun hd => absurd hs hd⟩

theorem Watched.sendInLoop {data : List Byte} (h : c.Watched)
    (hr : c.sendInLoop data w = .ok r) : r.1.Watched := by
  by_cases hs : c.state = .kdisconnected
  · unfold TcpConnection.sendInLoop at hr
    rw [if_pos hs] at hr
    cases hr
    exact h
  · obtain ⟨q', hq', _, hcases⟩ := ((sendInLoop_yields h.buffer.represents hs).of_eq hr).backlog
    refine ⟨hq'.1, fun _ => ?_⟩
    rw [← hq'.length]
    rcases hcases with ⟨hc, rfl⟩ | ⟨hwr, hne⟩
    · rw [hc, h.iff_backlog hs, h.buffer.represents.length]
    · simp [hwr, List.length_pos_iff, hne]

/-- A write cannot take more than the backlog: `Retrieve` asserts it. -/
theorem handleWrite_writePost {q : List Byte} (h : c.outputBuffer.Represents q)
    (hr : c.handleWrite w = .ok r) : WritePost c q w r := by
  by_cases hw : w.Within q.length
  · exact (handleWrite_yields h hw).of_eq hr
  · unfold WriteResult.Within at hw
    unfold TcpConnection.handleWrite at hr
    split at hr
    · rw [if_pos (by omega)] at hr
      obtain ⟨b, hb, _⟩ := bind_eq_ok hr
      obtain ⟨hle, _⟩ := check_bind_eq_ok hb
      rw [← h.length] at hle
      exact absurd hle hw
    · cases hr
      exact .idle

theorem Watched.handleWrite (h : c.Watched) (hr : c.handleWrite w = .ok r) : r.1.Watched := by
  cases handleWrite_writePost h.buffer.represents hr with
  | idle => exact h
  | @some b hi _ hlt hb =>
    refine ⟨hb.1, fun _ => ?_⟩
    rw [← hb.length, List.length_drop]
    simp only [hi, true_iff]
    omega
  | @all b _ _ hb =>
    refine ⟨hb.1, fun _ => ?_⟩
    rw [← hb.length]
    simp

theorem Watched.handleClose (h : c.Watched) (hr : c.handleClose = .ok r) : r.1.Watched := by
  obtain ⟨_, hr⟩ := check_bind_eq_ok hr
  cases hr
  exact h.close rfl rfl

theorem Watched.forceCloseInLoop (h : c.Watched) (hr : c.forceCloseInLoop = .ok r) :
    r.1.Watched := by
  unfold TcpConnection.forceCloseInLoop at hr
  split at hr
  · exact h.handleClose hr
  · cases hr
    exact h

theorem Watched.handleRead {x : ReadvResult} (h : c.Watched) (hr : c.handleRead x = .ok r) :
    r.1.Watched := by
  obtain ⟨⟨b, n, e⟩, _, hr⟩ := bind_eq_ok hr
  have hb : TcpConnection.Watched { c with inputBuffer := b } := h.keep rfl rfl id
  dsimp only at hr
  split at hr
  · cases hr
    exact hb
  · split at hr
    · exact hb.handleClose hr
    · cases hr
      exact hb

theorem Watched.removeChannel {d : TcpConnection} (h : c.Watched)
    (hd : c.removeChannel = .ok d) : d.Watched := by
  unfold TcpConnection.removeChannel Channel.remove at hd
  obtain ⟨ch, hch, hd⟩ := bind_eq_ok hd
  obtain ⟨_, hch⟩ := check_bind_eq_ok hch
  cases hch
  cases hd
  exact h.keep rfl rfl id

theorem step_watched (c : TcpConnection) (x : ConnectionStep) (d : TcpConnection) (h : c.Watched)
    (hd : c.step x = .ok d) : d.Watched := by
  obtain ⟨r, hr, rfl⟩ := map_eq_ok hd
  cases x with
  | configure wc hw mark =>
    cases hr
    exact h.keep rfl rfl id
  | connectionEstablished =>
    obtain ⟨hs, hr⟩ := check_bind_eq_ok hr
    cases hr
    refine h.keep (Channel.isWriting_enableReading _) rfl fun _ => ?_
    rw [hs]
    decide
  | send inLoopThread message w =>
    simp only [call, send] at hr
    split at hr
    · split at hr
      · exact h.sendInLoop hr
      · cases hr
        exact h
    · cases hr
      exact h
  | sendInLoop message w => exact h.sendInLoop hr
  | shutdown =>
    cases hr
    unfold shutdown
    split
    · next hs => exact h.keep rfl rfl fun _ => by rw [hs]; decide
    · exact h
  | shutdownInLoop =>
    cases hr
    exact h
  | forceClose =>
    cases hr
    unfold forceClose
    split
    · next hs => exact h.keep rfl rfl fun _ => by rcases hs with hs | hs <;> rw [hs] <;> decide
    · exact h
  | forceCloseInLoop => exact h.forceCloseInLoop hr
  | startReadInLoop =>
    cases hr
    unfold startReadInLoop
    split
    · exact h.keep (Channel.isWriting_enableReading _) rfl id
    · exact h
  | stopReadInLoop =>
    cases hr
    unfold stopReadInLoop
    split
    · exact h.keep (Channel.isWriting_disableReading _) rfl id
    · exact h
  | handleRead r => exact h.handleRead hr
  | handleWrite w => exact h.handleWrite hr
  | handleClose => exact h.handleClose hr
  | connectionDestroyed =>
    cases hr
    unfold connectionDestroyed
    split
    · exact h.close rfl rfl
    · exact h
  | removeChannel =>
    simp only [call] at hr
    obtain ⟨e, he, hr⟩ := bind_eq_ok hr
    cases hr
    exact h.removeChannel he

/-- In every state that any order of calls reaches, an open connection waits for writability exactly
when it has a backlog. -/
theorem backlog_watched_iff (sockfd : ℕ) (c : TcpConnection) (hc : new sockfd = .ok c)
    (calls : List ConnectionStep) (d : TcpConnection) (hd : run step c calls = .ok d)
    (hs : d.state = .kconnected ∨ d.state = .kdisconnecting) :
    d.channel.isWriting = true ↔ 0 < d.outputBuffer.readableBytes := by
  have hw : d.Watched := reached_invariant (fun c x d h (_ : True) => step_watched c x d h)
    (new_watched hc) (along_of_forall (fun _ _ => trivial) c calls) hd
  apply hw.iff_backlog
  rcases hs with hs | hs <;> rw [hs] <;> decide

/-- One byte of two is written, the other is waited for. -/
theorem backlog_watched_partial_write :
    ∃ c d, new 7 = .ok c ∧
      run step c [.connectionEstablished, .sendInLoop [1, 2] (.wrote 1)] = .ok d ∧
      d.state = .kconnected ∧ (d.channel.isWriting = true ↔ 0 < d.outputBuffer.readableBytes) := by
  obtain ⟨c, hc, hstate, hrep⟩ : Yields (new 7) fun c =>
      c.state = .kconnecting ∧ c.outputBuffer.Represents [] := by
    refine yields_bind (new_represents _) fun b hb => ?_
    refine yields_bind (new_represents _) fun b' hb' => ?_
    exact yields_pure.mpr ⟨rfl, hb'⟩
  let c' : TcpConnection :=
    { c.setState .kconnected with channel := (c.setState .kconnected).channel.tie.enableReading }
  have hc' : c.step .connectionEstablished = .ok c' := by
    simp only [step, call, connectionEstablished, check_bind_of_true hstate]
    rfl
  obtain ⟨r, hr, hpost⟩ : Yields (c'.sendInLoop [1, 2] (.wrote 1))
      (SendPost c' [] [1, 2] (.wrote 1)) := sendInLoop_yields hrep (by simp [c', setState])
  have hrun : run step c [.connectionEstablished, .sendInLoop [1, 2] (.wrote 1)] = .ok r.1 := by
    rw [run_cons_of_ok hc', run_singleton]
    simp only [step, call, hr]
    rfl
  exact ⟨c, r.1, hc, hrun, hpost.state_eq, backlog_watched_iff 7 c hc _ r.1 hrun
    (.inl hpost.state_eq)⟩

end TcpConnection

end Dwater
