import Dwater.Net.Dispatch.Invariant

/-! # Handlers run only on registered channels

Channels of connections are removed by functors, and the channel of a connector by its own
handler or by a functor. While the loop goes over its active channels, `RemoveChannel` is
therefore called for the current one only, as long as no server, client or loop is destroyed by
a handler, and every channel that the loop has not reached is still in the poller.
-/

set_option autoImplicit false
namespace Dwater

open Fallible

namespace LoopWorld

/-- The server, the client and the loop are not destroyed by a handler. -/
def OutsideHandlers (s : LoopWorld) : WorldLabel → Prop
  | .destroyServer | .destroyLoop => s.loop.phase ≠ .handling
  | .destroyClient inLoopThread _ => inLoopThread = true → s.loop.phase ≠ .handling
  | _ => True

variable {s : LoopWorld}

/-- A handler of the connector's channel ends the attempt of the current channel. -/
theorem removes_current {fd : ℕ} (h : s.loop.currActiveChannel = some (.connector fd) ∧
    s.connector.channel.map Channel.fd = some fd) :
    ∀ ch, s.connector.channel = some ch →
      s.loop.currActiveChannel = some (.connector ch.fd) := by
  intro ch hch
  rw [hch] at h
  cases h.2
  exact h.1

/-- The destructor of the connector's channel asserts that the poller does not have it. -/
theorem Inv.resetChannel_avoids (h : s.Inv) : Avoids Fault.misused s.connector.resetChannel fun c =>
    c.channel = none ∧ ∀ fd, .connector fd ∉ s.loop.channels := by
  apply avoids_check (by decide)
  intro hremoved
  refine avoids_pure.mpr ⟨rfl, fun fd hfd => ?_⟩
  obtain ⟨ch, hch, -, hadded⟩ := h.connector fd hfd
  rw [hremoved ch hch] at hadded
  cases hadded

theorem Inv.channelCallback {ch : LoopChannel} {x : ChannelCallback} (h : s.Inv)
    (hok : s.FrameOk (.channelCallback ch x)) (k : Answers) :
    Avoids Fault.misused (s.channelCallback k ch x) Inv := by
  unfold LoopWorld.channelCallback
  split
  · apply avoids_pure.mpr
    apply Inv.push
    · exact h.congr rfl rfl rfl rfl rfl
    · intro f hf
      rw [List.eq_of_mem_replicate hf]
      trivial
  · apply avoids_ite
    · exact fun _ => h.newConnection k.here
    · exact fun _ => avoids_pure.mpr h
  · apply avoids_bind (Connector.handleWrite_ends k.soError k.selfConnect)
    intro r hr
    exact h.after_ends hr fun _ => removes_current hok
  · apply avoids_bind Connector.handleError_ends
    intro r hr
    exact h.after_ends hr fun _ => removes_current hok
  · apply h.withConn
    intro e he
    exact avoids_map (TcpConnection.channelCallback_keeps _ _ _) fun r hr => h.after_keeps he hr
  · exact avoids_pure.mpr h

theorem Inv.proceed (h : s.Inv) (k : Answers) : Avoids Fault.misused (s.proceed k) Inv := by
  unfold LoopWorld.proceed
  split
  · exact avoids_pure.mpr h
  · next f frames hs =>
    obtain ⟨hok, h'⟩ := h.pop hs
    cases f with
    | channelCallback ch x => exact h'.channelCallback hok k
    | startInLoop => exact h'.startInLoop k.errno
    | conn f =>
      cases f with
      | connectionCallback c connected => exact avoids_pure.mpr h'
      | closeCallback c => exact h'.closeCallback c k.errno
      | removeChannel c => exact h'.removeConn hok c
      | destroying rest => exact h'.destroying hok rest

theorem Inv.owned {ch : LoopChannel} (h : s.Inv) (hmem : ch ∈ s.loop.channels) :
    s.owned ch = true := by
  cases ch with
  | connector fd =>
    obtain ⟨k, hk, rfl, -⟩ := h.connector fd hmem
    simp [LoopWorld.owned, hk]
  | connection c =>
    obtain ⟨e, he, -⟩ := h.connections c hmem
    simp [LoopWorld.owned, he]
  | _ => rfl

theorem Inv.of_loop {loop : Reactor LoopChannel LoopTask} (h : s.Inv) (hs : s.stack = [])
    (hco : loop.Coherent) (hch : loop.channels = s.loop.channels)
    (hreg : ∀ ch ∈ loop.unhandled, ch ∈ s.loop.channels) : Inv { s with loop := loop } := by
  constructor
  · exact hco
  · intro ch hmem
    rw [hch]
    exact hreg ch hmem
  · rw [hch]
    exact h.connector
  · rw [hch]
    exact h.connections
  · exact h.fresh
  · rw [hs]
    rintro f ⟨⟩

theorem Inv.handleEvent (h : s.Inv) (hs : s.stack = []) (revents : BitVec 32) :
    Avoids Fault.misused (s.handleEvent revents) Inv := by
  unfold LoopWorld.handleEvent
  split
  · next ch loop hn =>
    obtain ⟨-, -, heq⟩ := Reactor.nextChannel_eq hn
    have hcurr : loop.currActiveChannel = some ch := by rw [heq]
    have hmem : ch ∈ s.loop.channels :=
      h.registered _ ((Reactor.mem_unhandled_iff hn).mpr (.inl rfl))
    have hnext : Inv { s with loop := loop } := by
      apply h.of_loop hs (h.coherent.nextChannel hn)
      · rw [heq]
      · exact fun k hk => h.registered k ((Reactor.mem_unhandled_iff hn).mpr (.inr hk))
    rw [check_bind_of_true (h.owned hmem)]
    apply avoids_pure.mpr
    apply hnext.push
    intro f hf
    obtain ⟨x, -, rfl⟩ := List.mem_map.mp hf
    cases ch with
    | connector fd =>
      obtain ⟨k, hk, rfl, -⟩ := h.connector fd hmem
      refine ⟨hcurr, ?_⟩
      rw [hk]
      rfl
    | _ => trivial
  · exact avoids_pure.mpr h

theorem Inv.runTask (h : s.Inv) (hs : s.stack = []) (hp : s.loop.phase ≠ .handling) (k : Answers)
    (f : LoopTask) : Avoids Fault.misused (s.runTask k f) Inv := by
  cases f with
  | conn t =>
    cases t with
    | connectionEstablished c => exact h.connectionEstablished c
    | connectionDestroyed c => exact h.connectionDestroyed hp c
    | removeConnectionInLoop c => exact h.removeConnectionInLoop c
    | functor c f => exact h.runConnFunctor k c f
  | connector f =>
    apply avoids_check (by cases f <;> decide)
    intro _
    cases f with
    | startInLoop => exact h.startInLoop k.errno
    | stopInLoop =>
      apply avoids_bind Connector.stopInLoop_ends
      exact fun r hr => h.after_ends hr fun heq => absurd heq hp
    | resetChannel =>
      apply avoids_bind h.resetChannel_avoids
      rintro c ⟨-, hnot⟩
      exact avoids_pure.mpr (h.setConnector hnot (.inl hs))
  | setCloseCallback c => exact h.setCloseCallback c
  | listen => exact h.listen
  | user => exact avoids_pure.mpr h

theorem Inv.poll (h : s.Inv) (hs : s.stack = []) (active : List LoopChannel) :
    Inv { s with loop := s.loop.poll active } := by
  apply h.of_loop hs (h.coherent.poll active)
  · unfold Reactor.poll
    split <;> rfl
  · unfold Reactor.poll
    split
    · next hp => exact hp.2.2
    · exact h.registered

theorem Inv.handled (h : s.Inv) (hs : s.stack = []) : Inv { s with loop := s.loop.handled } := by
  apply h.of_loop hs h.coherent.handled
  · unfold Reactor.handled
    split <;> rfl
  · unfold Reactor.handled
    split <;> exact h.registered

theorem Inv.ran (h : s.Inv) (hs : s.stack = []) : Inv { s with loop := s.loop.ran } := by
  apply h.of_loop hs h.coherent.ran
  · unfold Reactor.ran
    split <;> rfl
  · unfold Reactor.ran
    split <;> exact h.registered

theorem Inv.runFunctor (h : s.Inv) (hs : s.stack = []) (k : Answers) :
    Avoids Fault.misused (s.runFunctor k) Inv := by
  unfold LoopWorld.runFunctor
  split
  · next f loop hn =>
    obtain ⟨hp, -, heq⟩ := Reactor.nextFunctor_eq hn
    have hphase : loop.phase = .running := by
      rw [heq]
      exact hp
    have hnext : Inv { s with loop := loop } := by
      apply h.of_loop hs (h.coherent.nextFunctor hn)
      · rw [heq]
      · rw [heq]
        exact h.registered
    apply hnext.runTask hs
    rw [hphase]
    decide
  · exact avoids_pure.mpr h

theorem Inv.destroyLoop (h : s.Inv) (hp : s.loop.phase ≠ .handling) :
    Avoids Fault.misused s.destroyLoop Inv := by
  apply avoids_bind (h.removeChannel fun heq => absurd heq hp)
  rintro t ⟨ht, -, hphase, -⟩
  apply avoids_bind (ht.removeChannel fun heq => absurd (hphase.symm.trans heq) hp)
  rintro u ⟨hu, -⟩
  exact avoids_pure.mpr (hu.congr rfl rfl rfl rfl rfl)

theorem Inv.release (h : s.Inv) (c : ℕ) : Avoids Fault.misused (s.release c) Inv := by
  apply h.withConn
  intro e he
  apply avoids_check (by decide)
  intro _
  apply avoids_check (by decide)
  intro hremoved
  apply avoids_pure.mpr
  refine ⟨h.coherent, h.registered, h.connector, ?_, ?_, h.frames⟩
  · intro d hd
    obtain ⟨e', he', hadded⟩ := h.connections d hd
    have hdc : d ≠ c := by
      rintro rfl
      rw [he] at he'
      cases he'
      rw [hremoved] at hadded
      cases hadded
    exact ⟨e', (Function.update_of_ne hdc ..).trans he', hadded⟩
  · intro d hd
    by_cases hdc : d = c
    · subst hdc
      exact Function.update_self ..
    · exact (Function.update_of_ne hdc ..).trans (h.fresh d hd)

theorem Inv.releaseConnector (h : s.Inv) : Avoids Fault.misused s.releaseConnector Inv := by
  apply avoids_ite
  · intro _
    apply avoids_check (by decide)
    exact fun _ => avoids_pure.mpr (h.congr rfl rfl rfl rfl rfl)
  · exact fun _ => avoids_pure.mpr h

theorem Inv.clientStep (h : s.Inv) (x : WorldLabel) :
    Avoids Fault.misused (s.clientStep x) Inv := by
  cases x with
  | connect inLoopThread errno => exact h.connectFrom inLoopThread errno
  | stop =>
    apply Inv.after_starts
    · exact h.congr rfl rfl rfl rfl rfl
    · exact .quiet rfl (by simp [ConnectorEffect.quiet])
  | disconnect inLoopThread =>
    have hconnect : Inv { s with connect := false } := h.congr rfl rfl rfl rfl rfl
    unfold LoopWorld.clientStep
    dsimp only
    split
    · apply hconnect.withConn
      exact fun e he => hconnect.call he TcpConnection.shutdown_keeps inLoopThread
    · exact avoids_pure.mpr hconnect
  | enableRetry => exact avoids_pure.mpr (h.congr rfl rfl rfl rfl rfl)
  | destroyClient inLoopThread unique => exact h.destroyClient inLoopThread unique
  | _ => exact avoids_pure.mpr h

theorem Inv.serverStep {x : WorldLabel} (h : s.Inv) (hx : s.OutsideHandlers x) :
    Avoids Fault.misused (s.serverStep x) Inv := by
  cases x with
  | start inLoopThread => exact h.start inLoopThread
  | destroyServer =>
    have hphase : Inv { s with server := .destroying } := h.congr rfl rfl rfl rfl rfl
    apply avoids_pure.mpr
    apply hphase.push
    rintro f (- | ⟨_, ⟨⟩⟩)
    exact hx
  | _ => exact avoids_pure.mpr h

theorem Inv.userStep {x : WorldLabel} (h : s.Inv) (hx : s.OutsideHandlers x) :
    Avoids Fault.misused (s.userStep x) Inv := by
  cases x with
  | send inLoopThread c message w =>
    apply h.withConn
    intro e he
    apply avoids_bind (TcpConnection.send_keeps inLoopThread message w)
    exact fun r hr => h.call he hr inLoopThread
  | shutdown inLoopThread c =>
    apply h.withConn
    exact fun e he => h.call he TcpConnection.shutdown_keeps inLoopThread
  | forceClose c => exact h.forceClose c
  | forceCloseWithDelay c =>
    apply h.withConn
    intro e he
    exact avoids_pure.mpr (h.replaceConn he TcpConnection.forceClose_keeps.1)
  | startRead inLoopThread c =>
    apply h.withConn
    intro e he
    exact h.call he (TcpConnection.keeps_refl (by simp [TcpConnection.startRead])) inLoopThread
  | stopRead inLoopThread c =>
    apply h.withConn
    intro e he
    exact h.call he (TcpConnection.keeps_refl (by simp [TcpConnection.stopRead])) inLoopThread
  | setCallbacks c writeComplete highWater highWaterMark =>
    apply h.withConn
    exact fun e he => avoids_pure.mpr (h.replaceConn he fun hadded => hadded)
  | queueInLoop f => exact avoids_pure.mpr (h.queueInLoop f)
  | adopt => exact h.adopt
  | release c => exact h.release c
  | releaseConnector => exact h.releaseConnector
  | destroyLoop => exact h.destroyLoop hx
  | _ => exact avoids_pure.mpr h

theorem Inv.loopStep (h : s.Inv) (hs : s.stack = []) (x : WorldLabel) :
    Avoids Fault.misused (s.loopStep x) Inv := by
  cases x with
  | poll active => exact avoids_pure.mpr (h.poll hs active)
  | handleEvent revents => exact h.handleEvent hs revents
  | handled => exact avoids_pure.mpr (h.handled hs)
  | runFunctor k => exact h.runFunctor hs k
  | ran => exact avoids_pure.mpr (h.ran hs)
  | _ => exact avoids_pure.mpr h

theorem step_avoids (s : LoopWorld) (x : WorldLabel) (h : s.Inv) (hx : s.OutsideHandlers x) :
    Avoids Fault.misused (s.step x) Inv := by
  have hclient : Avoids Fault.misused (if s.clientAlive then s.clientStep x else return s) Inv :=
    avoids_ite (fun _ => h.clientStep x) fun _ => avoids_pure.mpr h
  have hserver :
      Avoids Fault.misused (if s.server = .alive then s.serverStep x else return s) Inv :=
    avoids_ite (fun _ => h.serverStep hx) fun _ => avoids_pure.mpr h
  have hloop : Avoids Fault.misused (if s.stack = [] then s.loopStep x else return s) Inv :=
    avoids_ite (fun hs => h.loopStep hs x) fun _ => avoids_pure.mpr h
  unfold step
  apply avoids_ite
  · intro _
    cases x with
    | proceed k => exact h.proceed k
    | connect | stop | disconnect | enableRetry | destroyClient => exact hclient
    | start | destroyServer => exact hserver
    | poll | handleEvent | handled | runFunctor | ran => exact hloop
    | _ => exact h.userStep hx
  · exact fun _ => avoids_pure.mpr h

/--
In every run in which no handler destroys the server, the client or the loop, `RemoveChannel` is
called by a handler only for the current channel or one that is not active, and every channel that
the for-loop has not reached is in the poller and has its owner.
-/
theorem active_channels_registered (labels : List WorldLabel)
    (h : Along step OutsideHandlers new labels) :
    Avoids Fault.misused (run step new labels) Registered :=
  (avoids_run step_avoids new_inv h).mono fun _ hi => hi.registered

/-- Connections succeed, the peer has nothing to say, and one timer has expired. -/
def endOfStream : Answers := ⟨.bytes [], .wrote 0, .einprogress, 0, false, true, true, 1⟩

/-- A server is destroyed before the loop runs, and a client connects and is closed by its peer. -/
theorem active_channels_registered_closed_client :
    Avoids Fault.misused (run step new
      [.start true, .destroyServer, .proceed endOfStream, .connect true .einprogress,
        .poll [.connector 0], .handleEvent pollout, .proceed endOfStream, .proceed endOfStream,
        .handled, .runFunctor endOfStream, .ran, .poll [.wakeup, .connection 0],
        .handleEvent pollin, .proceed endOfStream, .handleEvent pollin, .proceed endOfStream,
        .proceed endOfStream, .proceed endOfStream, .handled, .runFunctor endOfStream,
        .proceed endOfStream, .ran]) Registered := by
  apply active_channels_registered
  refine along_cons trivial rfl ?_
  refine along_cons nofun rfl ?_
  simp [Along, OutsideHandlers]

/-- The callback of a timer destroys the server while the acceptor's channel is active. -/
example : run step new [.start true, .poll [.timer, .acceptor], .handleEvent pollin,
    .destroyServer, .proceed endOfStream] = .error (.assertion .event_loop_cc 178) := rfl

end LoopWorld

end Dwater
