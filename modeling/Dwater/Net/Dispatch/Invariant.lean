import Dwater.Net.Dispatch.Contracts

/-! # The channels in the poller and their owners

The poller has the channels that their owners have added and not yet removed, and every channel
that the for-loop has not reached is one of them. What waits on the stack to remove a channel
waits outside the for-loop, and a handler of the connector's channel is that of the current one.
Connections, the client and the server keep this.
-/

set_option autoImplicit false
namespace Dwater

open Fallible

namespace LoopWorld

/-- Every channel that the for-loop has not reached is in the poller. -/
def Registered (s : LoopWorld) : Prop := ∀ ch ∈ s.loop.unhandled, ch ∈ s.loop.channels

def FrameOk (s : LoopWorld) : LoopFrame → Prop
  | .channelCallback (.connector fd) _ =>
    s.loop.currActiveChannel = some (.connector fd) ∧
      s.connector.channel.map Channel.fd = some fd
  | .conn (.removeChannel _) | .conn (.destroying _) => s.loop.phase ≠ .handling
  | _ => True

/-- The channels in the poller are those that their owners have added. -/
structure Inv (s : LoopWorld) : Prop where
  coherent : s.loop.Coherent
  registered : s.Registered
  connector : ∀ fd, .connector fd ∈ s.loop.channels →
    ∃ ch, s.connector.channel = some ch ∧ ch.fd = fd ∧ ch.addedToLoop = true
  connections : ∀ c, .connection c ∈ s.loop.channels →
    ∃ e, s.conns c = some e ∧ e.conn.channel.addedToLoop = true
  fresh : ∀ c, s.nextConn ≤ c → s.conns c = none
  frames : ∀ f ∈ s.stack, s.FrameOk f

theorem new_inv : new.Inv := by
  constructor
  · exact Reactor.new_coherent _
  · rintro ch ⟨⟩
  · rintro fd (- | ⟨_, - | ⟨_, ⟨⟩⟩⟩)
  · rintro c (- | ⟨_, - | ⟨_, ⟨⟩⟩⟩)
  · exact fun _ _ => rfl
  · rintro f ⟨⟩

section Fields

variable {s t : LoopWorld} {loop : Reactor LoopChannel LoopTask} {c : ℕ} {e : LoopConn}

theorem FrameOk.congr {f : LoopFrame} (h : s.FrameOk f) (hp : t.loop.phase = s.loop.phase)
    (hcurr : t.loop.currActiveChannel = s.loop.currActiveChannel)
    (hch : t.connector.channel.map Channel.fd = s.connector.channel.map Channel.fd) :
    t.FrameOk f := by
  unfold FrameOk at h ⊢
  rw [hp, hcurr, hch]
  exact h

theorem Inv.congr (h : s.Inv) (hl : t.loop = s.loop) (hs : t.stack = s.stack)
    (hc : t.conns = s.conns) (hn : t.nextConn = s.nextConn)
    (hch : t.connector.channel = s.connector.channel) : t.Inv := by
  constructor
  · rw [hl]
    exact h.coherent
  · unfold Registered
    rw [hl]
    exact h.registered
  · rw [hl, hch]
    exact h.connector
  · rw [hl, hc]
    exact h.connections
  · rw [hn, hc]
    exact h.fresh
  · intro f hf
    rw [hs] at hf
    exact (h.frames f hf).congr (by rw [hl]) (by rw [hl]) (by rw [hch])

theorem Inv.queueInLoop (h : s.Inv) (f : LoopTask) : (s.queueInLoop f).Inv :=
  ⟨h.coherent.queueInLoop, h.registered, h.connector, h.connections, h.fresh, h.frames⟩

theorem Inv.push {frames : List LoopFrame} (h : s.Inv) (hf : ∀ f ∈ frames, s.FrameOk f) :
    (s.push frames).Inv := by
  refine ⟨h.coherent, h.registered, h.connector, h.connections, h.fresh, ?_⟩
  intro f hmem
  rcases List.mem_append.mp hmem with hmem | hmem
  · exact hf f hmem
  · exact h.frames f hmem

theorem Inv.pop {f : LoopFrame} {frames : List LoopFrame} (h : s.Inv) (hs : s.stack = f :: frames) :
    s.FrameOk f ∧ Inv { s with stack := frames } := by
  have hframes := h.frames
  rw [hs] at hframes
  exact ⟨hframes f List.mem_cons_self, h.coherent, h.registered, h.connector, h.connections,
    h.fresh, fun g hg => hframes g (List.mem_cons_of_mem _ hg)⟩

theorem Inv.updateChannel {ch : LoopChannel} (h : s.Inv)
    (hconnector : ∀ fd, ch = .connector fd →
      ∃ k, s.connector.channel = some k ∧ k.fd = fd ∧ k.addedToLoop = true)
    (hconn : ∀ c, ch = .connection c →
      ∃ e, s.conns c = some e ∧ e.conn.channel.addedToLoop = true) :
    (s.updateChannel ch).Inv := by
  constructor
  · exact h.coherent.updateChannel
  · exact fun k hk => Reactor.mem_updateChannel.mpr (.inr (h.registered k hk))
  · intro fd hfd
    rcases Reactor.mem_updateChannel.mp hfd with heq | hfd
    · exact hconnector fd heq.symm
    · exact h.connector fd hfd
  · intro c hc
    rcases Reactor.mem_updateChannel.mp hc with heq | hc
    · exact hconn c heq.symm
    · exact h.connections c hc
  · exact h.fresh
  · exact h.frames

theorem Inv.updateAcceptor (h : s.Inv) : (s.updateChannel .acceptor).Inv :=
  h.updateChannel (by rintro fd ⟨⟩) (by rintro c ⟨⟩)

theorem removeChannel_avoids {ch : LoopChannel} (h : s.loop.Coherent)
    (hcurr : s.loop.phase = .handling → s.loop.currActiveChannel = some ch) :
    Avoids Fault.misused (s.removeChannel ch) fun t => ch ∉ s.loop.unhandled ∧
      t = { s with loop := { s.loop with channels := s.loop.channels.filter (· ≠ ch) } } := by
  have hcond : s.loop.eventHandling = true →
      s.loop.currActiveChannel = some ch ∨ ch ∉ s.loop.activeChannels :=
    fun he => .inl (hcurr (h.handling_iff.mp he))
  obtain ⟨loop, hr⟩ := Reactor.removeChannel_ok hcond
  have hnot := h.notMem_unhandled hr
  obtain ⟨-, rfl⟩ := Reactor.removeChannel_eq hr
  unfold LoopWorld.removeChannel
  rw [hr]
  exact avoids_ok.mpr ⟨hnot, rfl⟩

theorem Inv.without {ch : LoopChannel} (h : s.Inv) (hnot : ch ∉ s.loop.unhandled) :
    Inv { s with loop := { s.loop with channels := s.loop.channels.filter (· ≠ ch) } } := by
  have hsub : ∀ k ∈ s.loop.channels.filter (· ≠ ch), k ∈ s.loop.channels :=
    fun k hk => (List.mem_filter.mp hk).1
  constructor
  · have hco := h.coherent
    exact ⟨hco.handling_iff, hco.functors_nil, hco.unhandled_nil, hco.curr_none,
      hco.unhandled_nodup, hco.unhandled_active, hco.curr_handled⟩
  · intro k hk
    refine List.mem_filter.mpr ⟨h.registered k hk, decide_eq_true ?_⟩
    rintro rfl
    exact hnot hk
  · exact fun fd hfd => h.connector fd (hsub _ hfd)
  · exact fun c hc => h.connections c (hsub _ hc)
  · exact h.fresh
  · exact h.frames

theorem Inv.removeChannel {ch : LoopChannel} (h : s.Inv)
    (hcurr : s.loop.phase = .handling → s.loop.currActiveChannel = some ch) :
    Avoids Fault.misused (s.removeChannel ch) fun t => t.Inv ∧ ch ∉ t.loop.channels ∧
      t.loop.phase = s.loop.phase ∧ t.nextConn = s.nextConn := by
  refine (removeChannel_avoids h.coherent hcurr).mono ?_
  rintro t ⟨hnot, rfl⟩
  exact ⟨h.without hnot, by simp, rfl, rfl⟩

theorem Inv.setConnector {c : Connector} (h : s.Inv)
    (hnot : ∀ fd, .connector fd ∉ s.loop.channels)
    (hfd : s.stack = [] ∨ ∀ fd, s.connector.channel.map Channel.fd = some fd →
      c.channel.map Channel.fd = some fd) : Inv { s with connector := c } := by
  refine ⟨h.coherent, h.registered, fun fd hmem => absurd hmem (hnot fd), h.connections,
    h.fresh, ?_⟩
  intro f hf
  have hok := h.frames f hf
  rcases hfd with hnil | hfd
  · rw [hnil] at hf
    cases hf
  · unfold FrameOk at hok ⊢
    split
    · exact ⟨hok.1, hfd _ hok.2⟩
    · exact hok
    · exact hok
    · trivial

theorem Inv.setConn (h : s.Inv) (hlt : c < s.nextConn)
    (hadded : .connection c ∈ s.loop.channels → e.conn.channel.addedToLoop = true) :
    (s.setConn c e).Inv := by
  refine ⟨h.coherent, h.registered, h.connector, ?_, ?_, h.frames⟩
  · intro d hd
    by_cases hdc : d = c
    · subst hdc
      exact ⟨e, Function.update_self .., hadded hd⟩
    · obtain ⟨e', he', hadded'⟩ := h.connections d hd
      exact ⟨e', (Function.update_of_ne hdc ..).trans he', hadded'⟩
  · intro d hd
    have hdc : d ≠ c := fun heq => absurd hlt (Nat.not_lt.mpr (heq ▸ hd))
    exact (Function.update_of_ne hdc ..).trans (h.fresh d hd)

theorem Inv.lt_nextConn (h : s.Inv) (he : s.conns c = some e) : c < s.nextConn := by
  by_contra hc
  rw [h.fresh c (Nat.not_lt.mp hc)] at he
  cases he

end Fields

section Connections

variable {s : LoopWorld} {c : ℕ} {e : LoopConn}

theorem Inv.enqueue (h : s.Inv) (tasks : List Task) :
    (tasks.foldl (fun s t => s.queueInLoop (.conn t)) s).Inv := by
  induction tasks generalizing s with
  | nil => exact h
  | cons t tasks ih => exact ih (h.queueInLoop (.conn t))

@[simp] theorem enqueue_loop_phase (s : LoopWorld) (tasks : List Task) :
    (tasks.foldl (fun s t => s.queueInLoop (.conn t)) s).loop.phase = s.loop.phase := by
  induction tasks generalizing s with
  | nil => rfl
  | cons t tasks ih => exact ih (s.queueInLoop (.conn t))

/-- Of the frames that a method leaves, only the removal of the channel relies on anything. -/
theorem frameOk_of_frame {x : Effect} {f : Frame} (hf : x.frame c = some f)
    (hremove : x = .removeChannel → s.loop.phase ≠ .handling) : s.FrameOk (.conn f) := by
  cases x <;> cases hf
  · trivial
  · trivial
  · exact hremove rfl

theorem Inv.replaceConn {e' : LoopConn} (h : s.Inv) (he : s.conns c = some e)
    (hadded : e.conn.channel.addedToLoop = true → e'.conn.channel.addedToLoop = true) :
    (s.setConn c e').Inv := by
  apply h.setConn (h.lt_nextConn he)
  intro hmem
  obtain ⟨d, hd, hadd⟩ := h.connections c hmem
  rw [he] at hd
  cases hd
  exact hadded hadd

theorem Inv.after {r : TcpConnection × List Effect} (h : s.Inv) (he : s.conns c = some e)
    (hadded : e.conn.channel.addedToLoop = true → r.1.channel.addedToLoop = true)
    (hremove : .removeChannel ∈ r.2 → s.loop.phase ≠ .handling) : (s.after c e r).Inv := by
  have hset : (s.setConn c { e with conn := r.1 }).Inv := h.replaceConn he hadded
  have hupdate : Inv (if r.1.channel.addedToLoop then
      (s.setConn c { e with conn := r.1 }).updateChannel (.connection c)
      else s.setConn c { e with conn := r.1 }) := by
    split
    · next hadd =>
      apply hset.updateChannel
      · rintro fd ⟨⟩
      · rintro d ⟨⟩
        exact ⟨_, Function.update_self .., hadd⟩
    · exact hset
  apply (hupdate.enqueue _).push
  intro f hf
  obtain ⟨g, hg, rfl⟩ := List.mem_map.mp hf
  obtain ⟨x, hx, hxg⟩ := List.mem_filterMap.mp hg
  apply frameOk_of_frame hxg
  rintro rfl
  rw [enqueue_loop_phase]
  split <;> exact hremove hx

theorem Inv.after_keeps {r : TcpConnection × List Effect} (h : s.Inv) (he : s.conns c = some e)
    (hr : e.conn.Keeps r) : (s.after c e r).Inv :=
  h.after he hr.1 fun hmem => absurd hmem hr.2

theorem Inv.withConn {f : LoopConn → Except Fault LoopWorld} (h : s.Inv)
    (hf : ∀ e, s.conns c = some e → Avoids Fault.misused (f e) Inv) :
    Avoids Fault.misused (s.withConn c f) Inv := by
  unfold LoopWorld.withConn
  split
  · next e he => exact hf e he
  · exact avoids_pure.mpr h

theorem Inv.connectionEstablished (h : s.Inv) (c : ℕ) :
    Avoids Fault.misused (s.connectionEstablished c) Inv := by
  apply h.withConn
  intro e he
  exact avoids_map TcpConnection.connectionEstablished_keeps fun r hr => h.after_keeps he hr

theorem Inv.connectionDestroyed (h : s.Inv) (hp : s.loop.phase ≠ .handling) (c : ℕ) :
    Avoids Fault.misused (s.connectionDestroyed c) Inv := by
  apply h.withConn
  intro e he
  apply avoids_pure.mpr
  apply h.after he
  · intro hadded
    unfold TcpConnection.connectionDestroyed
    split
    · rfl
    · exact hadded
  · exact fun _ => hp

theorem Inv.execute (h : s.Inv) (he : s.conns c = some e) {conn : TcpConnection}
    (hadded : e.conn.channel.addedToLoop = true → conn.channel.addedToLoop = true)
    (w : WriteResult) (f : Functor) :
    Avoids Fault.misused (s.execute c { e with conn := conn } w f) Inv := by
  have hkeep : ∀ r, conn.Keeps r → (s.after c { e with conn := conn } r).Inv := by
    intro r hr
    show (s.after c e r).Inv
    exact h.after_keeps he ⟨fun hadd => hr.1 (hadded hadd), hr.2⟩
  cases f with
  | sendInLoop message => exact avoids_map (TcpConnection.sendInLoop_keeps message w) hkeep
  | shutdownInLoop => exact avoids_pure.mpr (hkeep _ TcpConnection.shutdownInLoop_keeps)
  | forceCloseInLoop => exact avoids_map TcpConnection.forceCloseInLoop_keeps hkeep
  | startReadInLoop => exact avoids_pure.mpr (hkeep _ TcpConnection.startReadInLoop_keeps)
  | stopReadInLoop => exact avoids_pure.mpr (hkeep _ TcpConnection.stopReadInLoop_keeps)
  | writeCompleteCallback => exact avoids_pure.mpr h
  | highWaterMarkCallback len => exact avoids_pure.mpr h

theorem Inv.runConnFunctor (h : s.Inv) (k : Answers) (c : ℕ) (f : Functor) :
    Avoids Fault.misused (s.runConnFunctor k c f) Inv := by
  unfold LoopWorld.runConnFunctor
  split
  · next he => exact h.execute he (fun hadded => hadded) k.write f
  · apply avoids_throw
    simp [Fault.misused]
  · exact avoids_pure.mpr h

theorem Inv.call {r : TcpConnection × List Effect} (h : s.Inv) (he : s.conns c = some e)
    (hr : e.conn.Keeps r) (inLoopThread : Bool) :
    Avoids Fault.misused (s.call inLoopThread c e r) Inv := by
  unfold LoopWorld.call
  split
  · split
    · exact h.execute he hr.1 _ _
    · exact avoids_pure.mpr (h.after_keeps he hr)
  · exact avoids_pure.mpr (h.after_keeps he hr)

theorem Inv.setCloseCallback (h : s.Inv) (c : ℕ) :
    Avoids Fault.misused (s.setCloseCallback c) Inv := by
  apply h.withConn
  exact fun e he => avoids_pure.mpr (h.replaceConn he fun hadded => hadded)

theorem Inv.forceClose (h : s.Inv) (c : ℕ) : Avoids Fault.misused (s.forceClose c) Inv := by
  apply h.withConn
  exact fun e he => avoids_pure.mpr (h.after_keeps he TcpConnection.forceClose_keeps)

theorem Inv.newConn (h : s.Inv) (owner : Owner) (sockfd : ℕ) :
    Avoids Fault.misused (s.newConn owner sockfd) Inv := by
  apply avoids_bind (TcpConnection.new_avoids sockfd)
  intro conn _
  apply avoids_pure.mpr
  have hgrow : Inv { s with nextConn := s.nextConn + 1 } :=
    ⟨h.coherent, h.registered, h.connector, h.connections,
      fun c hc => h.fresh c (Nat.le_of_succ_le hc), h.frames⟩
  apply hgrow.setConn (Nat.lt_succ_self _)
  intro hmem
  obtain ⟨e, he, -⟩ := h.connections _ hmem
  rw [h.fresh _ (Nat.le_refl _)] at he
  cases he

theorem Inv.removeConn (h : s.Inv) (hp : s.loop.phase ≠ .handling) (c : ℕ) :
    Avoids Fault.misused (s.removeConn c) Inv := by
  apply h.withConn
  intro e he
  apply avoids_bind (P := fun _ => True)
  · apply avoids_bind (P := fun _ => True)
    · apply avoids_check (by decide)
      exact fun _ => avoids_pure.mpr trivial
    · exact fun _ _ => avoids_pure.mpr trivial
  · intro conn _
    apply avoids_bind (h.removeChannel fun heq => absurd heq hp)
    rintro t ⟨ht, hnot, -, hnext⟩
    apply avoids_pure.mpr
    apply ht.setConn
    · rw [hnext]
      exact h.lt_nextConn he
    · exact fun hmem => absurd hmem hnot

end Connections

section Clients

variable {s : LoopWorld}

theorem Inv.clientNewConnection (h : s.Inv) (sockfd : ℕ) :
    Avoids Fault.misused (s.clientNewConnection sockfd) Inv := by
  apply avoids_check (by decide)
  intro _
  apply avoids_bind (h.newConn .client sockfd)
  intro t ht
  have ht' : Inv { t with connection := some s.nextConn } := ht.congr rfl rfl rfl rfl rfl
  exact ht'.connectionEstablished _

theorem Inv.perform_quiet {x : ConnectorEffect} (h : s.Inv)
    (hx : x.quiet = true ∨ ∃ fd, x = .newConnectionCallback fd) :
    Avoids Fault.misused (s.perform x) Inv := by
  cases x with
  | runInLoop f => exact avoids_pure.mpr (h.queueInLoop _)
  | queueInLoop f => exact avoids_pure.mpr (h.queueInLoop _)
  | runAfter delay => exact avoids_pure.mpr (h.congr rfl rfl rfl rfl rfl)
  | close fd => exact avoids_pure.mpr h
  | newConnectionCallback fd => exact h.clientNewConnection fd
  | updateChannel fd => obtain hx | ⟨_, hx⟩ := hx <;> cases hx
  | removeChannel fd => obtain hx | ⟨_, hx⟩ := hx <;> cases hx

theorem Inv.run_quiet {fx : List ConnectorEffect} (h : s.Inv)
    (hfx : ∀ x ∈ fx, x.quiet = true ∨ ∃ fd, x = .newConnectionCallback fd) :
    Avoids Fault.misused (run perform s fx) Inv := by
  induction fx generalizing s with
  | nil => exact avoids_ok.mpr h
  | cons x fx ih =>
    apply avoids_bind (h.perform_quiet (hfx x List.mem_cons_self))
    exact fun t ht => ih ht fun y hy => hfx y (List.mem_cons_of_mem _ hy)

/-- A connector that starts finds no channel of an earlier attempt in the poller. -/
theorem Inv.after_starts {r : Connector × List ConnectorEffect} (h : s.Inv)
    (hr : s.connector.Starts r) : Avoids Fault.misused (s.afterConnector r) Inv := by
  cases hr with
  | quiet hch hfx =>
    apply Inv.run_quiet
    · exact h.congr rfl rfl rfl rfl hch
    · exact fun x hx => .inl (hfx x hx)
  | @opened c' ch hnone hch hadded =>
    have hset : Inv { s with connector := c' } := by
      apply h.setConnector
      · intro fd hfd
        obtain ⟨k, hk, -⟩ := h.connector fd hfd
        rw [hnone] at hk
        cases hk
      · refine .inr fun fd hfd => ?_
        rw [hnone] at hfd
        cases hfd
    apply avoids_ok.mpr
    apply hset.updateChannel
    · rintro fd ⟨⟩
      exact ⟨ch, hch, rfl, hadded⟩
    · rintro c ⟨⟩

/-- The end of an attempt removes the channel of the connector, which has to be the current one
when a handler does it. -/
theorem Inv.after_ends {r : Connector × List ConnectorEffect} (h : s.Inv)
    (hr : s.connector.Ends r)
    (hcurr : s.loop.phase = .handling → ∀ ch, s.connector.channel = some ch →
      s.loop.currActiveChannel = some (.connector ch.fd)) :
    Avoids Fault.misused (s.afterConnector r) Inv := by
  cases hr with
  | quiet hch hfx =>
    apply Inv.run_quiet
    · exact h.congr rfl rfl rfl rfl hch
    · exact fun x hx => .inl (hfx x hx)
  | @removed c' ch ch' fx hsome hch hfd hfx =>
    have hset : Avoids Fault.misused
        (LoopWorld.removeChannel { s with connector := c' } (.connector ch.fd)) Inv := by
      refine (removeChannel_avoids (s := { s with connector := c' }) h.coherent fun hp =>
        hcurr hp ch hsome).mono ?_
      rintro t ⟨hnot, rfl⟩
      apply (h.without hnot).setConnector
      · -- the poller has no other channel of the connector
        intro fd hfd
        obtain ⟨hmem, hne⟩ := List.mem_filter.mp hfd
        obtain ⟨k, hk, rfl, -⟩ := h.connector fd hmem
        rw [hsome] at hk
        cases hk
        simp at hne
      · refine .inr fun fd hmap => ?_
        rw [hsome] at hmap
        rw [hch, Option.map_some, hfd]
        exact hmap
    apply avoids_bind hset
    intro t ht
    apply ht.run_quiet
    intro x hx
    rcases hfx x hx with hq | hq
    · exact .inl hq
    · exact .inr ⟨_, hq⟩

theorem Inv.startInLoop (h : s.Inv) (errno : ConnectErrno) :
    Avoids Fault.misused (s.startInLoop errno) Inv := by
  apply avoids_bind (Connector.startInLoop_starts s.nextSockfd errno)
  intro r hr
  have ht : Inv { s with nextSockfd := s.nextSockfd + 1 } := h.congr rfl rfl rfl rfl rfl
  exact ht.after_starts hr

theorem Inv.connectFrom (h : s.Inv) (inLoopThread : Bool) (errno : ConnectErrno) :
    Avoids Fault.misused (s.connectFrom inLoopThread errno) Inv := by
  apply avoids_ite
  · intro _
    apply Inv.startInLoop
    exact h.congr rfl rfl rfl rfl rfl
  · intro _
    apply Inv.after_starts
    · exact h.congr rfl rfl rfl rfl rfl
    · exact .quiet rfl (by simp [ConnectorEffect.quiet])

theorem Inv.stop (h : s.Inv) : Avoids Fault.misused (s.afterConnector s.connector.stop) Inv :=
  h.after_starts (.quiet rfl (by simp [ConnectorEffect.quiet]))

theorem Inv.clientRemoveConnection (h : s.Inv) (c : ℕ) (errno : ConnectErrno) :
    Avoids Fault.misused (s.clientRemoveConnection c errno) Inv := by
  apply avoids_check (by decide)
  intro _
  apply avoids_check (by decide)
  intro _
  have hqueue :
      Inv ({ s with connection := none }.queueInLoop (.conn (.connectionDestroyed c))) := by
    apply Inv.queueInLoop
    exact h.congr rfl rfl rfl rfl rfl
  apply avoids_ite
  · intro _
    apply avoids_bind (Connector.restart_starts _ errno)
    intro r hr
    apply Inv.after_starts
    · exact hqueue.congr rfl rfl rfl rfl rfl
    · exact hr
  · exact fun _ => avoids_pure.mpr hqueue

theorem Inv.destroyClient (h : s.Inv) (inLoopThread unique : Bool) :
    Avoids Fault.misused (s.destroyClient inLoopThread unique) Inv := by
  have hdead : Inv { s with clientAlive := false } := h.congr rfl rfl rfl rfl rfl
  unfold LoopWorld.destroyClient
  dsimp only
  split
  · next c _ =>
    apply avoids_bind (P := Inv)
    · apply avoids_ite
      · exact fun _ => hdead.setCloseCallback c
      · exact fun _ => avoids_pure.mpr (hdead.queueInLoop _)
    · intro t ht
      apply avoids_ite
      · exact fun _ => ht.forceClose c
      · exact fun _ => avoids_pure.mpr ht
  · exact hdead.stop

end Clients

section Servers

variable {s : LoopWorld}

theorem Inv.newConnection (h : s.Inv) (here : Bool) :
    Avoids Fault.misused (s.newConnection here) Inv := by
  apply avoids_ite
  · intro _
    apply avoids_bind
    · apply Inv.newConn
      exact h.congr rfl rfl rfl rfl rfl
    · exact fun t ht => ht.connectionEstablished _
  · intro _
    apply avoids_pure.mpr
    exact ⟨h.coherent, h.registered, h.connector, h.connections,
      fun c hc => h.fresh c (Nat.le_of_succ_le hc), h.frames⟩

theorem Inv.adopt (h : s.Inv) : Avoids Fault.misused s.adopt Inv := by
  apply avoids_bind
  · apply Inv.newConn
    exact h.congr rfl rfl rfl rfl rfl
  · exact fun t ht => avoids_pure.mpr (ht.queueInLoop _)

theorem Inv.removeConnectionInLoop (h : s.Inv) (c : ℕ) :
    Avoids Fault.misused (s.removeConnectionInLoop c) Inv := by
  apply avoids_check (by decide)
  intro _
  apply avoids_check (by decide)
  intro _
  have herase : Inv { s with connections := s.connections.erase c } := h.congr rfl rfl rfl rfl rfl
  apply herase.withConn
  exact fun e _ => avoids_pure.mpr (herase.queueInLoop _)

theorem Inv.closeCallback (h : s.Inv) (c : ℕ) (errno : ConnectErrno) :
    Avoids Fault.misused (s.closeCallback c errno) Inv := by
  apply h.withConn
  intro e _
  cases e.owner with
  | server =>
    apply avoids_check (by decide)
    exact fun _ => h.removeConnectionInLoop c
  | elsewhere => exact avoids_pure.mpr h
  | client => exact h.clientRemoveConnection c errno
  | detail => exact avoids_pure.mpr (h.queueInLoop _)

theorem Inv.listen (h : s.Inv) : Avoids Fault.misused s.listen Inv := by
  apply avoids_check (by decide)
  exact fun _ => avoids_pure.mpr h.updateAcceptor

theorem Inv.start (h : s.Inv) (inLoopThread : Bool) :
    Avoids Fault.misused (s.start inLoopThread) Inv := by
  have hstarted : Inv { s with started := true } := h.congr rfl rfl rfl rfl rfl
  apply avoids_ite
  · exact fun _ => avoids_pure.mpr h
  · intro _
    apply avoids_ite
    · exact fun _ => hstarted.listen
    · exact fun _ => avoids_pure.mpr (hstarted.queueInLoop _)

theorem Inv.destroying (h : s.Inv) (hp : s.loop.phase ≠ .handling) (rest : List ℕ) :
    Avoids Fault.misused (s.destroying rest) Inv := by
  cases rest with
  | nil =>
    apply avoids_bind (h.updateAcceptor.removeChannel fun heq => absurd heq hp)
    rintro t ⟨ht, -⟩
    exact avoids_pure.mpr (ht.congr rfl rfl rfl rfl rfl)
  | cons c rest =>
    have hpush : (s.push [.conn (.destroying rest)]).Inv := by
      apply h.push
      rintro f (- | ⟨_, ⟨⟩⟩)
      exact hp
    exact hpush.connectionDestroyed hp c

end Servers

end LoopWorld

end Dwater
