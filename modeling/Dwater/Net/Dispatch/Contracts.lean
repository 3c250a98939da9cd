import Dwater.Net.Dispatch.LoopWorld

/-! # What methods do with their channels

The methods of connections and connectors may stop at assertions of their own, but not at the
one of `RemoveChannel`. A connection removes its channel only at the end of
`ConnectionDestroyed`; a connector opens a channel when it has none and removes the one it has
when an attempt ends.
-/

set_option autoImplicit false
namespace Dwater

open Fallible

/-- The assertion of `RemoveChannel` failed, or `HandleEvent` was called on a channel whose owner
was gone. -/
def Fault.misused (e : Fault) : Prop :=
  e = .assertion .event_loop_cc 178 ∨ e = .useAfterFree .event_loop_cc 106

instance : DecidablePred Fault.misused := fun _ => inferInstanceAs (Decidable (_ ∨ _))

namespace Buffer

theorem new_avoids (size : ℕ) : Avoids Fault.misused (new size) fun _ => True := by
  apply avoids_check (by decide)
  intro _
  apply avoids_check (by decide)
  intro _
  apply avoids_check (by decide)
  intro _
  exact avoids_pure.mpr trivial

theorem retrieve_avoids (b : Buffer) (len : ℕ) :
    Avoids Fault.misused (b.retrieve len) fun _ => True := by
  apply avoids_check (by decide)
  intro _
  split <;> exact avoids_pure.mpr trivial

theorem makeSpace_avoids (b : Buffer) (len : ℕ) :
    Avoids Fault.misused (b.makeSpace len) fun _ => True := by
  unfold makeSpace
  split
  · exact avoids_pure.mpr trivial
  · apply avoids_check (by decide)
    intro _
    apply avoids_check (by decide)
    intro _
    exact avoids_pure.mpr trivial

theorem store_avoids (b : Buffer) (data : List Byte) :
    Avoids Fault.misused (b.store data) fun _ => True := by
  apply avoids_check (by decide)
  exact fun _ => avoids_pure.mpr trivial

theorem append_avoids (b : Buffer) (data : List Byte) :
    Avoids Fault.misused (b.append data) fun _ => True := by
  apply avoids_bind (P := fun _ => True)
  · apply avoids_bind (P := fun _ => True)
    · split
      · exact makeSpace_avoids b _
      · exact avoids_pure.mpr trivial
    · intro b' _
      apply avoids_check (by decide)
      exact fun _ => avoids_pure.mpr trivial
  · intro b' _
    apply avoids_bind (store_avoids b' data)
    intro b'' _
    apply avoids_check (by decide)
    exact fun _ => avoids_pure.mpr trivial

theorem readFd_avoids (b : Buffer) (r : ReadvResult) :
    Avoids Fault.misused (b.readFd r) fun _ => True := by
  cases r with
  | error errno => exact avoids_pure.mpr trivial
  | bytes data =>
    apply avoids_bind (store_avoids b _)
    intro b' _
    split
    · exact avoids_pure.mpr trivial
    · apply avoids_bind (append_avoids _ _)
      exact fun _ _ => avoids_pure.mpr trivial

end Buffer

namespace TcpConnection

/-- What the methods of a connection do that do not remove its channel. -/
def Keeps (c : TcpConnection) (r : TcpConnection × List Effect) : Prop :=
  (c.channel.addedToLoop = true → r.1.channel.addedToLoop = true) ∧ .removeChannel ∉ r.2

variable {c : TcpConnection}

theorem keeps_refl {fx : List Effect} (h : .removeChannel ∉ fx) : c.Keeps (c, fx) :=
  ⟨fun hadded => hadded, h⟩

theorem new_avoids (sockfd : ℕ) :
    Avoids Fault.misused (new sockfd) fun c => c.channel.addedToLoop = false := by
  apply avoids_bind (Buffer.new_avoids _)
  intro _ _
  apply avoids_bind (Buffer.new_avoids _)
  exact fun _ _ => avoids_pure.mpr rfl

theorem removeChannel_notMem_directWrite (data : List Byte) (w : WriteResult) :
    .removeChannel ∉ c.directWrite data w := by
  unfold directWrite queueWriteComplete
  cases w with
  | wrote n => split <;> (try split) <;> simp
  | error errno => simp

theorem removeChannel_notMem_queueHighWaterMark (remaining : ℕ) :
    .removeChannel ∉ c.queueHighWaterMark remaining := by
  unfold queueHighWaterMark
  dsimp only
  split <;> simp

theorem sendRest_avoids (rest : List Byte) : Avoids Fault.misused (c.sendRest rest) fun c' =>
    c'.channel.addedToLoop = true ∨ c'.channel = c.channel := by
  apply avoids_bind (Buffer.append_avoids _ _)
  intro _ _
  apply avoids_pure.mpr
  dsimp only
  split
  · exact .inr rfl
  · exact .inl rfl

theorem sendInLoop_keeps (data : List Byte) (w : WriteResult) :
    Avoids Fault.misused (c.sendInLoop data w) c.Keeps := by
  have hdirect : .removeChannel ∉ (if c.writesDirectly then c.directWrite data w else []) := by
    split
    · exact removeChannel_notMem_directWrite data w
    · exact List.not_mem_nil
  apply avoids_ite
  · exact fun _ => avoids_pure.mpr (keeps_refl List.not_mem_nil)
  · intro _
    apply avoids_check (by decide)
    intro _
    apply avoids_ite
    · intro _
      apply avoids_bind (sendRest_avoids _)
      intro c' hc'
      apply avoids_pure.mpr
      constructor
      · rintro hadded
        rcases hc' with hc' | hc'
        · exact hc'
        · exact (congrArg Channel.addedToLoop hc').trans hadded
      · rw [List.mem_append, not_or]
        exact ⟨hdirect, removeChannel_notMem_queueHighWaterMark _⟩
    · exact fun _ => avoids_pure.mpr (keeps_refl hdirect)

theorem send_keeps (inLoopThread : Bool) (message : List Byte) (w : WriteResult) :
    Avoids Fault.misused (c.send inLoopThread message w) c.Keeps := by
  unfold send
  split
  · split
    · exact sendInLoop_keeps message w
    · exact avoids_pure.mpr (keeps_refl (by simp))
  · exact avoids_pure.mpr (keeps_refl List.not_mem_nil)

theorem shutdownInLoop_keeps : c.Keeps (c, c.shutdownInLoop) := by
  apply keeps_refl
  unfold shutdownInLoop
  split <;> simp

theorem shutdown_keeps : c.Keeps c.shutdown := by
  unfold shutdown
  split
  · exact ⟨fun hadded => hadded, by simp⟩
  · exact keeps_refl List.not_mem_nil

theorem forceClose_keeps : c.Keeps c.forceClose := by
  unfold forceClose
  split
  · exact ⟨fun hadded => hadded, by simp⟩
  · exact keeps_refl List.not_mem_nil

theorem startReadInLoop_keeps : c.Keeps (c.startReadInLoop, []) := by
  refine ⟨fun hadded => ?_, List.not_mem_nil⟩
  unfold startReadInLoop
  split
  · rfl
  · exact hadded

theorem stopReadInLoop_keeps : c.Keeps (c.stopReadInLoop, []) := by
  refine ⟨fun hadded => ?_, List.not_mem_nil⟩
  unfold stopReadInLoop
  split
  · rfl
  · exact hadded

theorem connectionEstablished_keeps : Avoids Fault.misused c.connectionEstablished c.Keeps := by
  apply avoids_check (by decide)
  intro _
  exact avoids_pure.mpr ⟨fun _ => rfl, by simp⟩

theorem handleClose_keeps : Avoids Fault.misused c.handleClose c.Keeps := by
  apply avoids_check (by decide)
  intro _
  exact avoids_pure.mpr ⟨fun _ => rfl, by simp⟩

theorem forceCloseInLoop_keeps : Avoids Fault.misused c.forceCloseInLoop c.Keeps := by
  unfold forceCloseInLoop
  split
  · exact handleClose_keeps
  · exact avoids_pure.mpr (keeps_refl List.not_mem_nil)

theorem handleRead_keeps (r : ReadvResult) : Avoids Fault.misused (c.handleRead r) c.Keeps := by
  apply avoids_bind (Buffer.readFd_avoids _ _)
  rintro ⟨inputBuffer, n, errno⟩ -
  dsimp only
  split
  · exact avoids_pure.mpr ⟨fun hadded => hadded, by simp⟩
  · split
    · exact handleClose_keeps.mono fun _ h => h
    · exact avoids_pure.mpr ⟨fun hadded => hadded, List.not_mem_nil⟩

theorem handleWrite_keeps (w : WriteResult) : Avoids Fault.misused (c.handleWrite w) c.Keeps := by
  unfold handleWrite
  split
  · split
    · apply avoids_bind (Buffer.retrieve_avoids _ _)
      intro outputBuffer _
      dsimp only
      split
      · apply avoids_pure.mpr
        refine ⟨fun _ => rfl, ?_⟩
        unfold queueWriteComplete shutdownInLoop
        split <;> split <;> (try split) <;> simp
      · exact avoids_pure.mpr ⟨fun hadded => hadded, by simp⟩
    · exact avoids_pure.mpr (keeps_refl List.not_mem_nil)
  · exact avoids_pure.mpr (keeps_refl List.not_mem_nil)

theorem channelCallback_keeps (r : ReadvResult) (w : WriteResult) (x : ChannelCallback) :
    Avoids Fault.misused (c.channelCallback r w x) c.Keeps := by
  cases x with
  | read => exact handleRead_keeps r
  | write => exact handleWrite_keeps w
  | close => exact handleClose_keeps
  | error => exact avoids_pure.mpr (keeps_refl List.not_mem_nil)

end TcpConnection

def ConnectorEffect.quiet : ConnectorEffect → Bool
  | runInLoop _ | queueInLoop _ | runAfter _ | close _ => true
  | updateChannel _ | removeChannel _ | newConnectionCallback _ => false

namespace Connector

/-- What starting a connector does: it opens a channel when there is none, or leaves it alone. -/
inductive Starts (c : Connector) : Connector × List ConnectorEffect → Prop
  | quiet {c' : Connector} {fx : List ConnectorEffect} (hch : c'.channel = c.channel)
      (hfx : ∀ x ∈ fx, x.quiet = true) : Starts c (c', fx)

  | opened {c' : Connector} {ch : Channel} (hnone : c.channel = none)
      (hch : c'.channel = some ch) (hadded : ch.addedToLoop = true) :
      Starts c (c', [.updateChannel ch.fd])

/-- What ends an attempt: the channel is removed and kept, or left alone. -/
inductive Ends (c : Connector) : Connector × List ConnectorEffect → Prop
  | quiet {c' : Connector} {fx : List ConnectorEffect} (hch : c'.channel = c.channel)
      (hfx : ∀ x ∈ fx, x.quiet = true) : Ends c (c', fx)

  | removed {c' : Connector} {ch ch' : Channel} {fx : List ConnectorEffect}
      (hsome : c.channel = some ch) (hch : c'.channel = some ch') (hfd : ch'.fd = ch.fd)
      (hfx : ∀ x ∈ fx, x.quiet = true ∨ x = .newConnectionCallback ch.fd) :
      Ends c (c', .removeChannel ch.fd :: fx)

variable {c : Connector}

theorem retry_quiet (sockfd : ℕ) :
    (c.retry sockfd).1.channel = c.channel ∧ ∀ x ∈ (c.retry sockfd).2, x.quiet = true := by
  obtain ⟨c', -, hch, heq | ⟨delay, heq⟩⟩ := retry_eq c sockfd
  · rw [heq]
    exact ⟨hch, by simp [ConnectorEffect.quiet]⟩
  · rw [heq]
    exact ⟨hch, by simp [ConnectorEffect.quiet]⟩

theorem connectTo_starts (sockfd : ℕ) (errno : ConnectErrno) :
    Avoids Fault.misused (c.connectTo sockfd errno) c.Starts := by
  rcases connectTo_eq c sockfd errno with ⟨-, heq⟩ | heq | heq
  · rw [heq]
    apply avoids_check (by decide)
    intro hnone
    apply avoids_pure.mpr
    show c.Starts (_, [.updateChannel (Channel.new sockfd).enableWriting.fd])
    exact .opened hnone rfl rfl
  · rw [heq]
    exact avoids_ok.mpr (.quiet (retry_quiet sockfd).1 (retry_quiet sockfd).2)
  · rw [heq]
    exact avoids_ok.mpr (.quiet rfl (by simp [ConnectorEffect.quiet]))

theorem startInLoop_starts (sockfd : ℕ) (errno : ConnectErrno) :
    Avoids Fault.misused (c.startInLoop sockfd errno) c.Starts := by
  apply avoids_check (by decide)
  intro _
  split
  · exact connectTo_starts sockfd errno
  · exact avoids_pure.mpr (.quiet rfl (by simp))

/-- Only the channel matters, which `Restart` finds as it was. -/
theorem restart_starts (sockfd : ℕ) (errno : ConnectErrno) :
    Avoids Fault.misused (c.restart sockfd errno) c.Starts := by
  refine (startInLoop_starts sockfd errno).mono ?_
  rintro _ (⟨hch, hfx⟩ | ⟨hnone, hch, hadded⟩)
  · exact .quiet hch hfx
  · exact .opened hnone hch hadded

theorem removeAndResetChannel_ends
    {f : Connector × ℕ × List ConnectorEffect → Except Fault (Connector × List ConnectorEffect)}
    (hf : ∀ c' sockfd fx, Avoids Fault.misused (f (c', sockfd, fx)) fun r => ∃ gx,
      r.1.channel = c'.channel ∧ r.2 = fx ++ gx ∧
        ∀ x ∈ gx, x.quiet = true ∨ x = .newConnectionCallback sockfd) :
    Avoids Fault.misused (c.removeAndResetChannel >>= f) c.Ends := by
  cases hch : c.channel with
  | none =>
    unfold removeAndResetChannel
    rw [hch]
    exact avoids_throw (by decide)
  | some ch =>
    rw [removeAndResetChannel_eq hch]
    refine (hf _ ch.fd _).mono ?_
    rintro ⟨d, gx⟩ ⟨hx, hd, rfl, hgx⟩
    refine .removed hch hd rfl ?_
    rintro x (- | ⟨_, hx⟩)
    · exact .inl rfl
    · exact hgx x hx

theorem handleError_ends : Avoids Fault.misused c.handleError c.Ends := by
  unfold handleError
  split
  · apply removeAndResetChannel_ends
    intro c' sockfd fx
    exact avoids_pure.mpr ⟨_, (retry_quiet sockfd).1, rfl, fun x hx =>
      .inl ((retry_quiet sockfd).2 x hx)⟩
  · exact avoids_pure.mpr (.quiet rfl (by simp))

theorem stopInLoop_ends : Avoids Fault.misused c.stopInLoop c.Ends := by
  unfold stopInLoop
  split
  · apply Avoids.mono (P := (c.setState .kdisconnected).Ends)
    · apply removeAndResetChannel_ends
      intro c' sockfd fx
      exact avoids_pure.mpr ⟨_, (retry_quiet sockfd).1, rfl, fun x hx =>
        .inl ((retry_quiet sockfd).2 x hx)⟩
    · rintro _ (⟨hch, hfx⟩ | ⟨hsome, hch, hfd, hfx⟩)
      · exact .quiet hch hfx
      · exact .removed hsome hch hfd hfx
  · exact avoids_pure.mpr (.quiet rfl (by simp))

theorem handleWrite_ends (err : ℕ) (selfConnect : Bool) :
    Avoids Fault.misused (c.handleWrite err selfConnect) c.Ends := by
  unfold handleWrite
  split
  · apply removeAndResetChannel_ends
    intro c' sockfd fx
    dsimp only
    split
    · exact avoids_pure.mpr ⟨_, (retry_quiet sockfd).1, rfl, fun x hx =>
        .inl ((retry_quiet sockfd).2 x hx)⟩
    · refine avoids_pure.mpr ⟨_, rfl, rfl, ?_⟩
      rintro x (- | ⟨_, hx⟩)
      · split
        · exact .inr rfl
        · exact .inl rfl
      · cases hx
  · apply avoids_check (by decide)
    exact fun _ => avoids_pure.mpr (.quiet rfl (by simp))

end Connector

end Dwater
