import Dwater.Net.Client.TcpClient

/-! # One attempt at a time

Retry timers are never cancelled, a stopped attempt is torn down by a functor and its
channel is freed by another one. A client that calls `Connect` only when its connector is
at rest, and whose retry timers do not expire before the channel of the last attempt has
been freed, never has two attempts and never fails an assertion of its connector.
-/

set_option autoImplicit false
namespace Dwater

open Fallible

def ClientChannel.sockfd : ClientChannel → ℕ
  | connector fd | connection fd => fd

namespace TcpClient

def starts (s : TcpClient) : ℕ := s.loop.tasks.count (.connector .startInLoop) + s.timers

def resets (s : TcpClient) : ℕ := s.loop.tasks.count (.connector .resetChannel)

def socket (s : TcpClient) : Option ℕ :=
  if s.connector.state = .kconnecting then s.connector.channel.map Channel.fd else none

/--
`Connect` finds the connector disconnected and about to start by no timer or functor, and an attempt
that the loop's thread begins, there or in an expired timer, finds the last channel freed.
-/
def AtRest (s : TcpClient) : ClientLabel → Prop
  | .connect inLoopThread errno => s.connector.state = .kdisconnected ∧ s.starts = 0 ∧
      (inLoopThread = true → errno.inProgress = true → s.resets = 0)
  | .expire errno => 0 < s.timers → s.connector.connect = true → errno.inProgress = true →
    s.resets = 0
  | _ => True

/-- At most one socket is in the connecting state. -/
def OneAttempt (s : TcpClient) : Prop := s.connecting.length ≤ 1

/-- A channel is freed before the connector starts again and before its connection is closed. -/
def Before (connection : Option ClientConnection) (a b : ClientTask) : Prop :=
  b = .connector .resetChannel → a ≠ .connector .startInLoop ∧
    ∀ c, connection = some c → a ≠ .forceCloseInLoop c.sockfd

structure Inv (s : TcpClient) : Prop where
  coherent : s.loop.Coherent
  registered : ∀ ch ∈ s.loop.unhandled, ch ∈ s.loop.channels
  channels_lt : ∀ ch ∈ s.loop.channels, ch.sockfd < s.nextSockfd
  tasks_lt : ∀ fd, .forceCloseInLoop fd ∈ s.loop.tasks → fd < s.nextSockfd
  watched : ∀ fd, .connector fd ∈ s.loop.channels → s.socket = some fd
  unshared : ∀ fd, s.socket = some fd → fd < s.nextSockfd ∧
    .connection fd ∉ s.loop.channels ∧ .forceCloseInLoop fd ∉ s.loop.tasks
  connecting_eq : s.connecting = s.socket.toList
  busy : s.connector.state = .kconnecting → s.connector.channel ≠ none
  removed : s.connector.state ≠ .kconnecting →
    ∀ ch, s.connector.channel = some ch → ch.addedToLoop = false
  resets_eq : s.resets =
    if s.connector.state ≠ .kconnecting ∧ s.connector.channel ≠ none then 1 else 0
  starts_le : s.starts ≤ if s.connector.state = .kdisconnected then 1 else 0
  ordered : s.loop.tasks.Pairwise (Before s.connection)
  connected : ∀ c, s.connection = some c → s.connector.state = .kconnected ∧ c.sockfd < s.nextSockfd
  recent : ∀ c, s.connection = some c → 0 < s.resets → s.loop.phase ≠ .polling ∧
    (s.loop.phase = .running → .connector .resetChannel ∉ s.loop.pendingFunctors) ∧
    .connection c.sockfd ∉ s.loop.unhandled ∧ s.closeCallback = none
  closing : ∀ fd, s.closeCallback = some fd → s.connection = some ⟨fd, false⟩

theorem new_inv : new.Inv := by
  refine ⟨Reactor.new_coherent [], ?_, ?_, ?_, ?_, ?_, ?_, ?_, ?_, ?_, ?_, ?_, ?_, ?_, ?_⟩ <;>
    simp [new, Reactor.new, Reactor.tasks, socket, resets, starts, Connector.new]

section Frames

variable {s : TcpClient} {t : ClientTask} {loop : Reactor ClientChannel ClientTask}

theorem Inv.queue (h : s.Inv) (ht : t ≠ .connector .resetChannel)
    (hstart : t = .connector .startInLoop → s.connector.state = .kdisconnected ∧ s.starts = 0)
    (hforce : ∀ fd, t = .forceCloseInLoop fd → fd < s.nextSockfd ∧ s.socket ≠ some fd) :
    Inv { s with loop := s.loop.queueInLoop t } := by
  have hresets : resets { s with loop := s.loop.queueInLoop t } = s.resets := by
    simp [resets, List.count_append, ht]
  constructor
  · exact h.coherent.queueInLoop
  · exact h.registered
  · exact h.channels_lt
  · intro fd hfd
    rcases List.mem_append.mp (Reactor.tasks_queueInLoop ▸ hfd) with hfd | hfd
    · exact h.tasks_lt fd hfd
    · exact (hforce fd (List.mem_singleton.mp hfd).symm).1
  · exact h.watched
  · intro fd hfd
    obtain ⟨hlt, hchan, htask⟩ := h.unshared fd hfd
    refine ⟨hlt, hchan, ?_⟩
    simp only [Reactor.tasks_queueInLoop, List.mem_append, List.mem_singleton, not_or]
    exact ⟨htask, fun heq => (hforce fd heq.symm).2 hfd⟩
  · exact h.connecting_eq
  · exact h.busy
  · exact h.removed
  · exact hresets.trans h.resets_eq
  · by_cases hs : t = .connector .startInLoop
    · obtain ⟨hstate, hzero⟩ := hstart hs
      simp only [starts] at hzero
      simp [starts, hs, hstate, List.count_append]
      omega
    · have hle := h.starts_le
      simpa [starts, List.count_append, hs] using hle
  · simp only [Reactor.tasks_queueInLoop, List.pairwise_append]
    refine ⟨h.ordered, List.pairwise_singleton .., ?_⟩
    rintro a - b hb hreset
    exact absurd ((List.mem_singleton.mp hb).symm.trans hreset) ht
  · exact h.connected
  · intro c hc hpos
    obtain ⟨hp, hrun, hu, hcl⟩ := h.recent c hc (hresets ▸ hpos)
    refine ⟨hp, fun hr hmem => ?_, hu, hcl⟩
    rcases List.mem_append.mp hmem with hmem | hmem
    · exact hrun hr hmem
    · exact ht (List.mem_singleton.mp hmem).symm
  · exact h.closing

theorem Inv.of_loop (h : s.Inv) (hco : loop.Coherent)
    (hreg : ∀ ch ∈ loop.unhandled, ch ∈ loop.channels)
    (hchannels : ∀ ch ∈ loop.channels, ch ∈ s.loop.channels)
    (htasks : loop.tasks.Sublist s.loop.tasks)
    (hresets : resets { s with loop := loop } = s.resets)
    (hrecent : ∀ c, s.connection = some c → 0 < s.resets → loop.phase ≠ .polling ∧
      (loop.phase = .running → .connector .resetChannel ∉ loop.pendingFunctors) ∧
      .connection c.sockfd ∉ loop.unhandled) : Inv { s with loop := loop } := by
  constructor
  · exact hco
  · exact hreg
  · exact fun ch hch => h.channels_lt ch (hchannels ch hch)
  · exact fun fd hfd => h.tasks_lt fd (htasks.subset hfd)
  · exact fun fd hfd => h.watched fd (hchannels _ hfd)
  · intro fd hfd
    obtain ⟨hlt, hchan, htask⟩ := h.unshared fd hfd
    exact ⟨hlt, fun hmem => hchan (hchannels _ hmem), fun hmem => htask (htasks.subset hmem)⟩
  · exact h.connecting_eq
  · exact h.busy
  · exact h.removed
  · exact hresets.trans h.resets_eq
  · have hcount := htasks.count_le (.connector .startInLoop)
    have hle := h.starts_le
    unfold starts at hle ⊢
    exact Nat.le_trans (Nat.add_le_add_right hcount _) hle
  · exact h.ordered.sublist htasks
  · exact h.connected
  · intro c hc hpos
    obtain ⟨hp, hrun, hu⟩ := hrecent c hc (hresets ▸ hpos)
    exact ⟨hp, hrun, hu, (h.recent c hc (hresets ▸ hpos)).2.2.2⟩
  · exact h.closing

theorem Inv.dequeue (h : s.Inv) (hn : s.loop.nextFunctor = some (t, loop))
    (ht : t ≠ .connector .resetChannel) : Inv { s with loop := loop } := by
  have htasks := Reactor.tasks_nextFunctor hn
  obtain ⟨hphase, hf, heq⟩ := Reactor.nextFunctor_eq hn
  have hchannels : loop.channels = s.loop.channels := by rw [heq]
  have hunhandled : loop.unhandled = s.loop.unhandled := by rw [heq]
  apply h.of_loop (h.coherent.nextFunctor hn)
  · rw [hunhandled, hchannels]
    exact h.registered
  · exact fun ch hch => hchannels ▸ hch
  · rw [htasks]
    exact List.sublist_cons_self ..
  · simp [resets, htasks, ht]
  · intro c hc hpos
    obtain ⟨hp, hrun, hu, -⟩ := h.recent c hc hpos
    rw [heq]
    exact ⟨hp, hrun, hu⟩

theorem Inv.poll (h : s.Inv) (active : List ClientChannel) :
    Inv { s with loop := s.loop.poll active } := by
  by_cases hp : s.loop.phase = .polling ∧ active.Nodup ∧ ∀ ch ∈ active, ch ∈ s.loop.channels
  · have heq : s.loop.poll active = { s.loop with
        activeChannels := active, unhandled := active, eventHandling := true,
        phase := .handling } := if_pos hp
    apply h.of_loop (h.coherent.poll active)
    · rw [heq]
      exact hp.2.2
    · rw [heq]
      exact fun ch hch => hch
    · rw [Reactor.tasks_poll]
    · simp [resets]
    · intro c hc hpos
      exact absurd hp.1 (h.recent c hc hpos).1
  · have heq : s.loop.poll active = s.loop := if_neg hp
    rw [heq]
    exact h

theorem Inv.nextChannel {ch : ClientChannel} (h : s.Inv)
    (hn : s.loop.nextChannel = some (ch, loop)) : Inv { s with loop := loop } := by
  obtain ⟨-, -, heq⟩ := Reactor.nextChannel_eq hn
  have htasks : loop.tasks = s.loop.tasks := by rw [heq]; rfl
  have hchannels : loop.channels = s.loop.channels := by rw [heq]
  have hsub : ∀ k ∈ loop.unhandled, k ∈ s.loop.unhandled :=
    fun k hk => (Reactor.mem_unhandled_iff hn).mpr (.inr hk)
  apply h.of_loop (h.coherent.nextChannel hn)
  · intro k hk
    rw [hchannels]
    exact h.registered k (hsub k hk)
  · exact fun k hk => hchannels ▸ hk
  · rw [htasks]
  · simp [resets, htasks]
  · intro c hc hpos
    obtain ⟨hp, hrun, hun, -⟩ := h.recent c hc hpos
    refine ⟨?_, ?_, fun hmem => hun (hsub _ hmem)⟩
    · rw [heq]
      exact hp
    · rw [heq]
      exact hrun

theorem Inv.handled (h : s.Inv) : Inv { s with loop := s.loop.handled } := by
  by_cases hp : s.loop.phase = .handling ∧ s.loop.unhandled = []
  · have htasks := h.coherent.tasks_handled
    have heq : s.loop.handled = { s.loop with
        currActiveChannel := none, eventHandling := false, functors := s.loop.pendingFunctors,
        pendingFunctors := [], phase := .running } := if_pos hp
    apply h.of_loop h.coherent.handled
    · rw [heq]
      exact h.registered
    · rw [heq]
      exact fun ch hch => hch
    · rw [htasks]
    · simp [resets, htasks]
    · intro c hc hpos
      rw [heq]
      simp [hp.2]
  · have heq : s.loop.handled = s.loop := if_neg hp
    rw [heq]
    exact h

theorem Inv.ran (h : s.Inv) : Inv { s with loop := s.loop.ran } := by
  by_cases hp : s.loop.phase = .running ∧ s.loop.functors = []
  · have heq : s.loop.ran = { s.loop with phase := .polling } := if_pos hp
    apply h.of_loop h.coherent.ran
    · rw [heq]
      exact h.registered
    · rw [heq]
      exact fun ch hch => hch
    · rw [Reactor.tasks_ran]
    · simp [resets]
    · intro c hc hpos
      -- the batch is done, so the channel has been freed
      have hmem : .connector .resetChannel ∈ s.loop.tasks := List.count_pos_iff.mp hpos
      rw [Reactor.tasks, hp.2, List.nil_append] at hmem
      exact absurd hmem ((h.recent c hc hpos).2.1 hp.1)
  · have heq : s.loop.ran = s.loop := if_neg hp
    rw [heq]
    exact h

end Frames

section Transitions

variable {s : TcpClient} {loop : Reactor ClientChannel ClientTask} {c : Connector} {ch : Channel}
  {fd : ℕ}

theorem socket_of_ne (hs : s.connector.state ≠ .kconnecting) : s.socket = none := if_neg hs

theorem Inv.disconnected (h : s.Inv) (hs : s.connector.state ≠ .kconnected) :
    s.connection = none := by
  cases hc : s.connection with
  | none => rfl
  | some c => exact absurd (h.connected c hc).1 hs

theorem Inv.starts_eq_zero (h : s.Inv) (hs : s.connector.state ≠ .kdisconnected) :
    s.starts = 0 := by
  have hle := h.starts_le
  rw [if_neg hs] at hle
  omega

theorem starts_tornDown (hr : s.loop.removeChannel (.connector fd) = .ok loop) :
    starts { s with
      connector := c, loop := loop.queueInLoop (.connector .resetChannel), connecting := [] } =
      s.starts := by
  obtain ⟨-, rfl⟩ := Reactor.removeChannel_eq hr
  simp [starts, Reactor.tasks, Reactor.queueInLoop, List.count_append]

theorem Inv.of_connector (h : s.Inv) (hs : c.state = s.connector.state)
    (hch : c.channel = s.connector.channel) : Inv { s with connector := c } := by
  have hsocket : socket { s with connector := c } = s.socket := by simp only [socket, hs, hch]
  refine ⟨h.coherent, h.registered, h.channels_lt, h.tasks_lt, ?_, ?_, ?_, ?_, ?_, ?_, ?_,
    h.ordered, ?_, h.recent, h.closing⟩
  · rw [hsocket]
    exact h.watched
  · rw [hsocket]
    exact h.unshared
  · rw [hsocket]
    exact h.connecting_eq
  · simpa only [hs, hch] using h.busy
  · simpa only [hs, hch] using h.removed
  · rw [hs, hch]
    exact h.resets_eq
  · rw [hs]
    exact h.starts_le
  · rw [hs]
    exact h.connected

theorem Inv.skip (h : s.Inv) : Inv { s with nextSockfd := s.nextSockfd + 1 } := by
  refine ⟨h.coherent, h.registered, ?_, ?_, h.watched, ?_, h.connecting_eq, h.busy, h.removed,
    h.resets_eq, h.starts_le, h.ordered, ?_, h.recent, h.closing⟩
  · exact fun k hk => Nat.lt_succ_of_lt (h.channels_lt k hk)
  · exact fun d hd => Nat.lt_succ_of_lt (h.tasks_lt d hd)
  · exact fun d hd => ⟨Nat.lt_succ_of_lt (h.unshared d hd).1, (h.unshared d hd).2⟩
  · exact fun c hc => ⟨(h.connected c hc).1, Nat.lt_succ_of_lt (h.connected c hc).2⟩

theorem Inv.timer (h : s.Inv) (hs : s.connector.state = .kdisconnected) (hz : s.starts = 0) :
    Inv { s with timers := s.timers + 1 } := by
  refine ⟨h.coherent, h.registered, h.channels_lt, h.tasks_lt, h.watched, h.unshared,
    h.connecting_eq, h.busy, h.removed, h.resets_eq, ?_, h.ordered, h.connected, h.recent,
    h.closing⟩
  unfold starts at hz ⊢
  simp only [hs, if_true]
  omega

theorem Inv.connecting (h : s.Inv) (hs : s.connector.state = .kdisconnected) (hz : s.starts = 0)
    (hch : s.connector.channel = none) (hc : c.state = .kconnecting)
    (hc' : c.channel = some ch) (hfd : ch.fd = s.nextSockfd) :
    Inv { s with
      connector := c, loop := s.loop.updateChannel (.connector s.nextSockfd)
      connecting := s.connecting ++ [s.nextSockfd], nextSockfd := s.nextSockfd + 1 } := by
  have hnone : s.connection = none := h.disconnected (by rw [hs]; decide)
  have hold : s.socket = none := socket_of_ne (by rw [hs]; decide)
  have hzero : s.resets = 0 := by
    rw [h.resets_eq, if_neg]
    simp [hch]
  refine ⟨h.coherent.updateChannel, ?_, ?_, ?_, ?_, ?_, ?_, ?_, ?_, ?_, ?_, h.ordered, ?_, ?_,
    h.closing⟩
  · exact fun k hk => Reactor.mem_updateChannel.mpr (.inr (h.registered k hk))
  · intro k hk
    rcases Reactor.mem_updateChannel.mp hk with rfl | hk
    · exact Nat.lt_succ_self _
    · exact Nat.lt_succ_of_lt (h.channels_lt k hk)
  · exact fun d hd => Nat.lt_succ_of_lt (h.tasks_lt d hd)
  · intro d hd
    rcases Reactor.mem_updateChannel.mp hd with heq | hd
    · cases heq
      simp [socket, hc, hc', hfd]
    · have hsome := h.watched d hd
      rw [hold] at hsome
      cases hsome
  · intro d hd
    have heq : d = s.nextSockfd := by simpa [socket, hc, hc', hfd, eq_comm] using hd
    subst heq
    refine ⟨Nat.lt_succ_self _, fun hmem => ?_, fun hmem => ?_⟩
    · rcases Reactor.mem_updateChannel.mp hmem with heq | hmem
      · cases heq
      · exact Nat.lt_irrefl _ (h.channels_lt _ hmem)
    · exact Nat.lt_irrefl _ (h.tasks_lt _ hmem)
  · rw [h.connecting_eq, hold]
    simp [socket, hc, hc', hfd]
  · simp [hc']
  · exact fun hne => absurd hc hne
  · refine Eq.trans hzero (Eq.symm (if_neg ?_))
    simp [hc]
  · exact Nat.le_trans (Nat.le_of_eq hz) (Nat.zero_le _)
  · simp [hnone]
  · simp [hnone]

theorem Inv.tornDown (h : s.Inv) (hs : s.connector.state = .kconnecting)
    (hfd : s.socket = some fd) (hr : s.loop.removeChannel (.connector fd) = .ok loop)
    (hc : c.state ≠ .kconnecting) (hc' : c.channel = some ch) (hadded : ch.addedToLoop = false) :
    Inv { s with
      connector := c, loop := loop.queueInLoop (.connector .resetChannel), connecting := [] } := by
  have hnone : s.connection = none := h.disconnected (by rw [hs]; decide)
  have hnotMem := h.coherent.notMem_unhandled hr
  have hco := h.coherent.removeChannel hr
  have hzero : s.resets = 0 := by
    rw [h.resets_eq, if_neg]
    simp [hs]
  have hstarts : s.starts = 0 := h.starts_eq_zero (by rw [hs]; decide)
  have hstarts' := (starts_tornDown (c := c) hr).trans hstarts
  obtain ⟨-, rfl⟩ := Reactor.removeChannel_eq hr
  have hsub : ∀ k ∈ s.loop.channels.filter (· ≠ .connector fd), k ∈ s.loop.channels :=
    fun k hk => List.mem_of_mem_filter hk
  refine ⟨hco.queueInLoop, ?_, fun k hk => h.channels_lt k (hsub k hk), ?_, ?_, ?_, ?_, ?_, ?_, ?_,
    ?_, ?_, ?_, ?_, h.closing⟩
  · intro k hk
    refine List.mem_filter.mpr ⟨h.registered k hk, ?_⟩
    have hne : k ≠ .connector fd := fun heq => hnotMem (heq ▸ hk)
    simpa using hne
  · intro d hd
    refine h.tasks_lt d ?_
    simpa [Reactor.tasks, Reactor.queueInLoop] using hd
  · intro d hd
    have hd' := List.mem_filter.mp hd
    have heq := h.watched d hd'.1
    rw [hfd] at heq
    cases heq
    simp at hd'
  · intro d hd
    rw [socket_of_ne hc] at hd
    cases hd
  · rw [socket_of_ne hc]
    rfl
  · exact fun hk => absurd hk hc
  · intro _ ch' hch'
    rw [hc'] at hch'
    cases hch'
    exact hadded
  · have hone : resets { s with
        connector := c, connecting := []
        loop := Reactor.queueInLoop { s.loop with
          channels := s.loop.channels.filter (· ≠ .connector fd) }
            (.connector .resetChannel) } = s.resets + 1 := by
      simp [resets, Reactor.tasks, Reactor.queueInLoop, List.count_append, Nat.add_assoc]
    rw [hone, hzero, if_pos ⟨hc, by simp [hc']⟩]
  · exact Nat.le_trans (Nat.le_of_eq hstarts') (Nat.zero_le _)
  · rw [Reactor.tasks_queueInLoop, List.pairwise_append]
    refine ⟨h.ordered, List.pairwise_singleton .., ?_⟩
    intro a ha b _ _
    refine ⟨?_, by simp [hnone]⟩
    rintro rfl
    have hcount : s.loop.tasks.count (.connector .startInLoop) = 0 := by
      unfold starts at hstarts
      omega
    exact List.count_eq_zero.mp hcount ha
  · simp [hnone]
  · simp [hnone]

theorem Inv.newConnection (h : s.Inv) (hs : s.connector.state = .kconnected)
    (hlt : fd < s.nextSockfd) (hp : s.loop.phase = .handling)
    (hu : .connection fd ∉ s.loop.unhandled) (ht : .forceCloseInLoop fd ∉ s.loop.tasks)
    (hcl : s.closeCallback = none) (hempty : s.connecting = []) : (s.newConnection fd).Inv := by
  have hne : s.connector.state ≠ .kconnecting := by rw [hs]; decide
  refine ⟨h.coherent.updateChannel, ?_, ?_, h.tasks_lt, ?_, ?_, ?_, h.busy, h.removed, h.resets_eq,
    h.starts_le, ?_, ?_, ?_, ?_⟩
  · exact fun k hk => Reactor.mem_updateChannel.mpr (.inr (h.registered k hk))
  · intro k hk
    rcases Reactor.mem_updateChannel.mp hk with rfl | hk
    · exact hlt
    · exact h.channels_lt k hk
  · intro d hd
    rcases Reactor.mem_updateChannel.mp hd with heq | hd
    · cases heq
    · exact h.watched d hd
  · intro d hd
    cases (socket_of_ne hne).symm.trans hd
  · exact (congrArg (List.erase · fd) hempty).trans (congrArg Option.toList (socket_of_ne hne)).symm
  · refine h.ordered.imp_of_mem fun ha _ hab hreset => ⟨(hab hreset).1, ?_⟩
    rintro c hc rfl
    cases hc
    exact ht ha
  · rintro c hc
    cases hc
    exact ⟨hs, hlt⟩
  · rintro c hc -
    cases hc
    have hphase : (s.newConnection fd).loop.phase = .handling := hp
    refine ⟨?_, ?_, hu, hcl⟩
    · rw [hphase]
      decide
    · rw [hphase]
      intro hrun
      cases hrun
  · intro d hd
    rw [show (s.newConnection fd).closeCallback = none from hcl] at hd
    cases hd

theorem Inv.resetChannel (h : s.Inv)
    (hn : s.loop.nextFunctor = some (.connector .resetChannel, loop)) :
    Yields s.connector.resetChannel fun c => Inv { s with loop := loop, connector := c } := by
  have htasks := Reactor.tasks_nextFunctor hn
  obtain ⟨hphase, -, heq⟩ := Reactor.nextFunctor_eq hn
  have hchannels : loop.channels = s.loop.channels := by rw [heq]
  have hunhandled : loop.unhandled = s.loop.unhandled := by rw [heq]
  have hresets : s.resets = resets { s with loop := loop } + 1 := by simp [resets, htasks]
  have hne : s.connector.state ≠ .kconnecting ∧ s.connector.channel ≠ none := by
    by_contra hn
    have hzero := h.resets_eq
    rw [if_neg hn] at hzero
    omega
  have hzero : resets { s with loop := loop } = 0 := by
    have hone := h.resets_eq
    rw [if_pos hne] at hone
    omega
  have hsub : ∀ t ∈ loop.tasks, t ∈ s.loop.tasks := by
    intro t ht
    rw [htasks]
    exact List.mem_cons_of_mem _ ht
  have hordered := h.ordered
  rw [htasks, List.pairwise_cons] at hordered
  unfold Connector.resetChannel
  rw [check_bind_of_true (h.removed hne.1)]
  refine yields_pure.mpr ⟨h.coherent.nextFunctor hn, ?_, ?_, fun d hd => h.tasks_lt d (hsub _ hd),
    ?_, ?_, ?_, ?_, ?_, ?_, ?_, hordered.2, h.connected, ?_, h.closing⟩
  · rw [hunhandled, hchannels]
    exact h.registered
  · rw [hchannels]
    exact h.channels_lt
  · intro d hd
    have hsome := h.watched d (hchannels ▸ hd)
    rw [socket_of_ne hne.1] at hsome
    cases hsome
  · intro d hd
    have hd' : none = some d := (if_neg hne.1).symm.trans hd
    cases hd'
  · rw [h.connecting_eq, socket_of_ne hne.1]
    exact congrArg Option.toList (if_neg hne.1).symm
  · exact fun hk => absurd hk hne.1
  · rintro - ch hch
    cases hch
  · refine Eq.trans hzero (Eq.symm (if_neg ?_))
    simp
  · have hle := h.starts_le
    have hcount : starts { s with loop := loop } = s.starts := by simp [starts, htasks]
    rw [← hcount] at hle
    exact hle
  · intro c hc hpos
    have : 0 < resets { s with loop := loop } := hpos
    omega

theorem Inv.handleClose (h : s.Inv)
    (hz : s.connection = some ⟨fd, true⟩ → s.resets = 0) : (s.handleClose fd).Inv := by
  unfold TcpClient.handleClose
  split
  · next hc =>
    have hzero := hz hc
    refine ⟨h.coherent, h.registered, h.channels_lt, h.tasks_lt, h.watched, h.unshared,
      h.connecting_eq, h.busy, h.removed, h.resets_eq, h.starts_le, ?_, ?_, ?_, ?_⟩
    · refine h.ordered.imp fun hab hreset => ⟨(hab hreset).1, ?_⟩
      rintro c hc'
      cases hc'
      exact (hab hreset).2 ⟨fd, true⟩ hc
    · rintro c hc'
      cases hc'
      exact h.connected ⟨fd, true⟩ hc
    · rintro c - hpos
      have : 0 < s.resets := hpos
      omega
    · rintro d hd
      cases hd
      rfl
  · exact h

end Transitions

section Methods

variable {s : TcpClient} {fd : ℕ} {errno : ConnectErrno}

theorem Inv.erase_connecting (h : s.Inv) (hs : s.connector.state ≠ .kconnecting) (fd : ℕ) :
    s.connecting.erase fd = s.connecting := by
  rw [h.connecting_eq, socket_of_ne hs]
  rfl

/-- An attempt that `connect` refuses is retried by a timer, unless the connector is stopped. -/
theorem Inv.refused (h : s.Inv) (hs : s.connector.state = .kdisconnected) (hz : s.starts = 0) :
    Yields (s.after (s.connector.retry fd)) Inv := by
  have hne : s.connector.state ≠ .kconnecting := by rw [hs]; decide
  have hcl := h.erase_connecting hne fd
  obtain ⟨c, hc, hch, heq | ⟨delay, heq⟩⟩ := Connector.retry_eq s.connector fd
  · rw [heq]
    refine yields_ok.mpr ?_
    dsimp only
    rw [hcl]
    exact h.of_connector (hc.trans hs.symm) hch
  · rw [heq]
    refine yields_ok.mpr ?_
    dsimp only
    rw [hcl]
    exact (h.of_connector (hc.trans hs.symm) hch).timer hc hz

theorem Inv.startInLoop (h : s.Inv) (hs : s.connector.state = .kdisconnected) (hz : s.starts = 0)
    (hfree : s.connector.connect = true → errno.inProgress = true → s.resets = 0) :
    Yields (s.startInLoop errno) Inv := by
  have hne : s.connector.state ≠ .kconnecting := by rw [hs]; decide
  unfold TcpClient.startInLoop Connector.startInLoop
  rw [check_bind_of_true hs]
  split
  · next hconn =>
    rcases Connector.connectTo_eq s.connector s.nextSockfd errno with ⟨hp, heq⟩ | heq | heq
    · have hnone : s.connector.channel = none := by
        by_contra hch
        have hone := h.resets_eq
        rw [if_pos ⟨hne, hch⟩, hfree hconn hp] at hone
        cases hone
      rw [heq, Connector.connecting_of_none hnone]
      exact yields_ok.mpr (h.connecting hs hz hnone rfl rfl rfl)
    · rw [heq]
      exact h.skip.refused hs hz
    · rw [heq]
      refine yields_ok.mpr ?_
      dsimp only
      rw [h.erase_connecting hne]
      exact h.skip
  · exact yields_ok.mpr h.skip

theorem Inv.giveUp {c : Connector} {ch : Channel} (h : s.Inv)
    (hs : s.connector.state = .kconnecting) (hch : s.connector.channel = some ch)
    (hcurr : s.loop.eventHandling = true →
      s.loop.currActiveChannel = some (.connector ch.fd))
    (hc : c.channel = some { ch.disableAll with addedToLoop := false }) :
    Yields (s.after ((c.retry ch.fd).1,
      [.removeChannel ch.fd, .queueInLoop .resetChannel] ++ (c.retry ch.fd).2)) fun s' =>
        s'.Inv ∧ s'.connector.state = .kdisconnected := by
  have hfd : s.socket = some ch.fd := by simp [socket, hs, hch]
  have hconnecting : s.connecting.erase ch.fd = [] := by simp [h.connecting_eq, hfd]
  obtain ⟨loop, hr⟩ := Reactor.removeChannel_ok fun he => .inl (hcurr he)
  obtain ⟨c', hstate, hchannel, heq | ⟨delay, heq⟩⟩ := Connector.retry_eq c ch.fd
  · have hi := h.tornDown hs hfd hr (c := c') (by rw [hstate]; decide) (hchannel.trans hc) rfl
    rw [heq]
    refine ⟨_, ?_, hi, hstate⟩
    simp [after, run, perform, hr, hconnecting, bind, Except.bind, pure, Except.pure]
  · have hi := h.tornDown hs hfd hr (c := c') (by rw [hstate]; decide) (hchannel.trans hc) rfl
    have hz := (starts_tornDown (c := c') hr).trans (h.starts_eq_zero (by rw [hs]; decide))
    rw [heq]
    refine ⟨_, ?_, hi.timer hstate hz, hstate⟩
    simp [after, run, perform, hr, hconnecting, bind, Except.bind, pure, Except.pure]

/-- The connector's channel may be removed: it is the one being handled, or none is. -/
def Removable (s : TcpClient) : Prop := ∀ ch, s.connector.channel = some ch →
  s.loop.eventHandling = true → s.loop.currActiveChannel = some (.connector ch.fd)

theorem Inv.stopInLoop (h : s.Inv) (hr : s.Removable) :
    Yields (s.connector.stopInLoop >>= s.after) Inv := by
  by_cases hs : s.connector.state = .kconnecting
  · obtain ⟨ch, hch⟩ := Option.ne_none_iff_exists'.mp (h.busy hs)
    have hc : (s.connector.setState .kdisconnected).channel = some ch := hch
    unfold Connector.stopInLoop
    rw [if_pos hs]
    dsimp only
    rw [Connector.removeAndResetChannel_eq hc]
    exact (h.giveUp hs hch (hr ch hch) rfl).mono fun _ hi => hi.1
  · unfold Connector.stopInLoop
    rw [if_neg hs]
    exact yields_ok.mpr h

theorem Inv.handleError (h : s.Inv) (hr : s.Removable)
    (hs : s.connector.state = .kconnecting) : Yields (s.connector.handleError >>= s.after)
      fun s' => s'.Inv ∧ s'.connector.state = .kdisconnected := by
  obtain ⟨ch, hch⟩ := Option.ne_none_iff_exists'.mp (h.busy hs)
  unfold Connector.handleError
  rw [if_pos hs, Connector.removeAndResetChannel_eq hch]
  exact h.giveUp hs hch (hr ch hch) rfl

/-- An attempt that succeeded becomes the connection, or is closed if the client was stopped. -/
theorem Inv.succeed {c : Connector} {ch : Channel} (h : s.Inv)
    (hs : s.connector.state = .kconnecting) (hch : s.connector.channel = some ch)
    (hcurr : s.loop.eventHandling = true →
      s.loop.currActiveChannel = some (.connector ch.fd))
    (hp : s.loop.phase = .handling) (hcl : s.closeCallback = none) (hstate : c.state = .kconnected)
    (hc : c.channel = some { ch.disableAll with addedToLoop := false }) (connect : Bool) :
    Yields (s.after (c, [.removeChannel ch.fd, .queueInLoop .resetChannel,
      if connect then .newConnectionCallback ch.fd else .close ch.fd])) Inv := by
  have hfd : s.socket = some ch.fd := by simp [socket, hs, hch]
  have hconnecting : s.connecting.erase ch.fd = [] := by simp [h.connecting_eq, hfd]
  obtain ⟨hlt, hchan, htask⟩ := h.unshared ch.fd hfd
  obtain ⟨loop, hr⟩ := Reactor.removeChannel_ok fun he => .inl (hcurr he)
  have hi := h.tornDown hs hfd hr (by rw [hstate]; decide) hc rfl
  cases connect with
  | false =>
    refine ⟨_, ?_, hi⟩
    simp [after, run, perform, hr, hconnecting, bind, Except.bind, pure, Except.pure]
  | true =>
    obtain ⟨-, rfl⟩ := Reactor.removeChannel_eq hr
    refine ⟨_, ?_, hi.newConnection hstate hlt hp ?_ ?_ hcl rfl⟩
    · simp [after, run, perform, hr, TcpClient.newConnection, hconnecting, bind, Except.bind, pure,
        Except.pure]
    · exact fun hmem => hchan (h.registered _ hmem)
    · intro hmem
      refine htask ?_
      simpa [Reactor.tasks, Reactor.queueInLoop] using hmem

theorem Inv.handleWrite_disconnected {err : ℕ} {selfConnect : Bool} (h : s.Inv)
    (hs : s.connector.state = .kdisconnected) :
    Yields (s.connector.handleWrite err selfConnect >>= s.after) Inv := by
  unfold Connector.handleWrite
  rw [if_neg (by rw [hs]; decide), check_bind_of_true hs]
  exact yields_ok.mpr h

theorem Inv.handleWrite {err : ℕ} {selfConnect : Bool} (h : s.Inv) (hr : s.Removable)
    (hp : s.loop.phase = .handling) (hcl : s.closeCallback = none)
    (hs : s.connector.state = .kconnecting) :
    Yields (s.connector.handleWrite err selfConnect >>= s.after) Inv := by
  obtain ⟨ch, hch⟩ := Option.ne_none_iff_exists'.mp (h.busy hs)
  by_cases herr : err ≠ 0 ∨ selfConnect = true
  · rw [Connector.handleWrite_failed hs hch herr]
    exact (h.giveUp hs hch (hr ch hch) rfl).mono fun _ hi => hi.1
  · rw [Connector.handleWrite_connected hs hch herr]
    exact h.succeed hs hch (hr ch hch) hp hcl rfl rfl s.connector.connect

end Methods

section Steps

variable {s : TcpClient}

theorem callbacks_eq (revents : BitVec 32) :
    Channel.handleEventWithGuard Connector.callbacks revents =
      (if revents &&& (pollerr ||| pollnval) ≠ 0 then [.error] else []) ++
        if revents &&& pollout ≠ 0 then [.write] else [] := by
  simp [Channel.handleEventWithGuard, Connector.callbacks]

theorem Inv.channelCallbacks {err : ℕ} {selfConnect : Bool} (h : s.Inv) (hr : s.Removable)
    (hp : s.loop.phase = .handling) (hcl : s.closeCallback = none)
    (hs : s.connector.state = .kconnecting) (revents : BitVec 32) :
    Yields (run (channelCallback err selfConnect) s
      (Channel.handleEventWithGuard Connector.callbacks revents)) Inv := by
  have herror : Yields (channelCallback err selfConnect s .error)
      fun s' => s'.Inv ∧ s'.connector.state = .kdisconnected := h.handleError hr hs
  have hwrite : Yields (channelCallback err selfConnect s .write) Inv := h.handleWrite hr hp hcl hs
  rw [callbacks_eq, run_append]
  split
  · rw [run_singleton]
    refine yields_bind herror fun t ht => ?_
    have hstale : Yields (channelCallback err selfConnect t .write) Inv :=
      ht.1.handleWrite_disconnected ht.2
    split
    · rwa [run_singleton]
    · exact yields_ok.mpr ht.1
  · split
    · show Yields (run _ s [ChannelCallback.write]) Inv
      rwa [run_singleton]
    · exact yields_ok.mpr h

theorem Inv.handleEvent (h : s.Inv) (hcl : s.closeCallback = none) (revents : BitVec 32) (err : ℕ)
    (selfConnect closed : Bool) : Yields (s.handleEvent revents err selfConnect closed) Inv := by
  unfold TcpClient.handleEvent
  split
  · next sockfd loop hn =>
    obtain ⟨hp, hu, heq⟩ := Reactor.nextChannel_eq hn
    have hmem : .connector sockfd ∈ s.loop.channels :=
      h.registered _ ((Reactor.mem_unhandled_iff hn).mpr (.inl rfl))
    have hsocket := h.watched sockfd hmem
    have hs : s.connector.state = .kconnecting := by
      by_contra hne
      rw [socket_of_ne hne] at hsocket
      cases hsocket
    have hch : s.connector.channel.map Channel.fd = some sockfd := by
      simpa [socket, hs] using hsocket
    rw [check_bind_of_true hch]
    have hi : Inv { s with loop := loop } := h.nextChannel hn
    refine hi.channelCallbacks ?_ ?_ hcl hs revents
    · intro ch hc _
      have hc' : s.connector.channel = some ch := hc
      rw [hc'] at hch
      have hfd : ch.fd = sockfd := by simpa using hch
      show loop.currActiveChannel = some (.connector ch.fd)
      rw [heq, hfd]
    · show loop.phase = .handling
      rw [heq]
      exact hp
  · next sockfd loop hn =>
    have hi : Inv { s with loop := loop } := h.nextChannel hn
    refine yields_pure.mpr ?_
    split
    · refine hi.handleClose fun hc => ?_
      by_contra hpos
      obtain ⟨hp, hu, heq⟩ := Reactor.nextChannel_eq hn
      have hresets : resets { s with loop := loop } = s.resets := by
        rw [heq]
        rfl
      refine (h.recent ⟨sockfd, true⟩ hc (by omega)).2.2.1 ?_
      rw [hu]
      exact List.mem_cons_self
    · exact hi
  · exact yields_pure.mpr h

theorem Inv.runFunctor {errno : ConnectErrno} (h : s.Inv) : Yields (s.runFunctor errno) Inv := by
  unfold TcpClient.runFunctor
  split
  · next f loop hn =>
    have hi : f ≠ .connector .resetChannel → Inv { s with loop := loop } := h.dequeue hn
    obtain ⟨hp, hf, heq⟩ := Reactor.nextFunctor_eq hn
    have htasks := Reactor.tasks_nextFunctor hn
    have hordered := h.ordered
    rw [htasks, List.pairwise_cons] at hordered
    have hidle : loop.eventHandling ≠ true := by
      rw [heq]
      intro he
      have := h.coherent.handling_iff.mp he
      rw [hp] at this
      cases this
    cases f with
    | connector f =>
      cases f with
      | startInLoop =>
        have hle := h.starts_le
        simp only [starts, htasks, List.count_cons_self] at hle
        have hs : s.connector.state = .kdisconnected := by
          by_contra hne
          rw [if_neg hne] at hle
          omega
        rw [if_pos hs] at hle
        refine (hi (by simp)).startInLoop hs ?_ fun _ _ => ?_
        · show loop.tasks.count _ + s.timers = 0
          omega
        · refine List.count_eq_zero.mpr fun hmem => ?_
          exact (hordered.1 _ hmem rfl).1 rfl
      | stopInLoop => exact (hi (by simp)).stopInLoop fun _ _ he => absurd he hidle
      | resetChannel => exact yields_bind (h.resetChannel hn) fun c hc => yields_pure.mpr hc
    | forceCloseInLoop fd =>
      refine yields_pure.mpr ((hi (by simp)).handleClose fun hc => ?_)
      refine List.count_eq_zero.mpr fun hmem => ?_
      exact (hordered.1 _ hmem rfl).2 ⟨fd, true⟩ hc rfl
    | connectionDestroyed fd =>
      have hj := hi (by simp)
      obtain ⟨loop', hr⟩ : ∃ loop', loop.removeChannel (.connection fd) = .ok loop' :=
        Reactor.removeChannel_ok fun he => absurd he hidle
      simp only [hr]
      obtain ⟨-, rfl⟩ := Reactor.removeChannel_eq hr
      refine yields_ok.mpr (hj.of_loop (hj.coherent.removeChannel hr) ?_ ?_ ?_ rfl ?_)
      · have hnil : loop.unhandled = [] := hj.coherent.unhandled_nil (by rw [heq]; simp [hp])
        simp [hnil]
      · exact fun ch hch => List.mem_of_mem_filter hch
      · exact List.Sublist.refl _
      · intro c hc hpos
        obtain ⟨hp, hrun, hun, -⟩ := hj.recent c hc hpos
        exact ⟨hp, hrun, hun⟩
  · exact yields_pure.mpr h

theorem Inv.forget (h : s.Inv) : Inv { s with connection := none, closeCallback := none } := by
  refine ⟨h.coherent, h.registered, h.channels_lt, h.tasks_lt, h.watched, h.unshared,
    h.connecting_eq, h.busy, h.removed, h.resets_eq, h.starts_le, ?_, ?_, ?_, ?_⟩
  · refine h.ordered.imp fun hab hreset => ⟨(hab hreset).1, ?_⟩
    rintro c hc
    cases hc
  · rintro c hc
    cases hc
  · rintro c hc
    cases hc
  · rintro d hd
    cases hd

theorem Inv.rest {c : Connector} (h : s.Inv) (hs : s.connector.state = .kconnected)
    (hnone : s.connection = none) (hc : c.state = .kdisconnected)
    (hch : c.channel = s.connector.channel) : Inv { s with connector := c } := by
  have hne : s.connector.state ≠ .kconnecting := by rw [hs]; decide
  have hne' : c.state ≠ .kconnecting := by rw [hc]; decide
  have hsocket : socket { s with connector := c } = s.socket := by
    rw [socket_of_ne hne, socket_of_ne hne']
  refine ⟨h.coherent, h.registered, h.channels_lt, h.tasks_lt, ?_, ?_, ?_, ?_, ?_, ?_, ?_,
    h.ordered, ?_, h.recent, h.closing⟩
  · rw [hsocket]
    exact h.watched
  · rw [hsocket]
    exact h.unshared
  · rw [hsocket]
    exact h.connecting_eq
  · exact fun hk => absurd hk hne'
  · rw [hch]
    exact fun _ => h.removed hne
  · refine Eq.trans h.resets_eq ?_
    simp [hch, hne, hne']
  · have hz : starts { s with connector := c } = 0 := h.starts_eq_zero (by rw [hs]; decide)
    exact Nat.le_trans (Nat.le_of_eq hz) (Nat.zero_le _)
  · simp [hnone]

theorem Inv.removeConnection {fd : ℕ} {errno : ConnectErrno} (h : s.Inv)
    (hcl : s.closeCallback = some fd) : Yields (s.removeConnection fd errno) Inv := by
  have hc := h.closing fd hcl
  obtain ⟨hs, -⟩ := h.connected _ hc
  have hzero : s.resets = 0 := by
    by_contra hpos
    have hnone := (h.recent _ hc (by omega)).2.2.2
    rw [hcl] at hnone
    cases hnone
  have hi := (h.queue (t := .connectionDestroyed fd) (by simp) (by simp) (by simp)).forget
  unfold TcpClient.removeConnection
  rw [check_bind_of_true (by rw [hc]; rfl)]
  dsimp only
  split
  · have hj := hi.rest (c := { s.connector.setState .kdisconnected with
      retryDelayMs := Connector.kinitRetryDelayMs, connect := true }) hs rfl rfl rfl
    refine hj.startInLoop rfl (hi.starts_eq_zero ?_) fun _ _ => ?_
    · show s.connector.state ≠ _
      rw [hs]
      decide
    · simpa [resets, List.count_append] using hzero
  · exact yields_pure.mpr hi

theorem Inv.switches (h : s.Inv) (connect retry : Bool) :
    Inv { s with connect := connect, retry := retry } :=
  ⟨h.coherent, h.registered, h.channels_lt, h.tasks_lt, h.watched, h.unshared, h.connecting_eq,
    h.busy, h.removed, h.resets_eq, h.starts_le, h.ordered, h.connected, h.recent, h.closing⟩

theorem Inv.connectFrom {inLoopThread : Bool} {errno : ConnectErrno} (h : s.Inv)
    (hx : s.AtRest (.connect inLoopThread errno)) :
    Yields (s.connectFrom inLoopThread errno) Inv := by
  obtain ⟨hs, hz, hfree⟩ := hx
  have hj : Inv { s with connect := true, connector := s.connector.start.1 } :=
    (h.switches true s.retry).of_connector rfl rfl
  cases inLoopThread with
  | true => exact hj.startInLoop hs hz fun _ hp => hfree rfl hp
  | false =>
    have hk := hj.queue (t := .connector .startInLoop) (by simp) (fun _ => ⟨hs, hz⟩) (by simp)
    exact yields_ok.mpr hk

theorem Inv.stop (h : s.Inv) : Yields s.stop Inv := by
  have hj : Inv { s with connect := false, connector := s.connector.stop.1 } :=
    (h.switches false s.retry).of_connector rfl rfl
  have hk := hj.queue (t := .connector .stopInLoop) (by simp) (by simp) (by simp)
  exact yields_ok.mpr hk

theorem Inv.forceClose (h : s.Inv) : s.forceClose.Inv := by
  unfold TcpClient.forceClose
  split
  · next sockfd hc =>
    obtain ⟨hs, hlt⟩ := h.connected _ hc
    refine h.queue (by simp) (by simp) ?_
    rintro fd heq
    cases heq
    refine ⟨hlt, ?_⟩
    rw [socket_of_ne (by rw [hs]; decide)]
    simp
  · exact h

theorem Inv.expire {errno : ConnectErrno} (h : s.Inv) (hx : s.AtRest (.expire errno))
    (ht : 0 < s.timers) :
    Yields (TcpClient.startInLoop { s with timers := s.timers - 1 } errno) Inv := by
  have hle := h.starts_le
  have hs : s.connector.state = .kdisconnected := by
    by_contra hne
    have hz := h.starts_eq_zero hne
    unfold starts at hz
    omega
  rw [if_pos hs] at hle
  have hz : starts { s with timers := s.timers - 1 } = 0 := by
    unfold starts at hle ⊢
    dsimp only
    omega
  have hi : Inv { s with timers := s.timers - 1 } :=
    ⟨h.coherent, h.registered, h.channels_lt, h.tasks_lt, h.watched, h.unshared, h.connecting_eq,
      h.busy, h.removed, h.resets_eq, Nat.le_trans (Nat.le_of_eq hz) (Nat.zero_le _), h.ordered,
      h.connected, h.recent, h.closing⟩
  exact hi.startInLoop hs hz (hx ht)

theorem Inv.loopStep {x : ClientLabel} (h : s.Inv) (hcl : s.closeCallback = none)
    (hx : s.AtRest x) : Yields (s.loopStep x) Inv := by
  cases x with
  | poll active => exact yields_pure.mpr (h.poll active)
  | handleEvent revents err selfConnect closed =>
    exact h.handleEvent hcl revents err selfConnect closed
  | expire errno =>
    simp only [TcpClient.loopStep]
    split
    · next hp => exact h.expire hx hp.2
    · exact yields_pure.mpr h
  | handled => exact yields_pure.mpr h.handled
  | runFunctor errno => exact h.runFunctor
  | ran => exact yields_pure.mpr h.ran
  | _ => exact yields_pure.mpr h

theorem step_inv (s : TcpClient) (x : ClientLabel) (h : s.Inv) (hx : s.AtRest x) :
    Yields (s.step x) Inv := by
  cases x with
  | connect inLoopThread errno => exact h.connectFrom hx
  | stop => exact h.stop
  | disconnect => exact yields_pure.mpr (h.switches false s.retry)
  | enableRetry => exact yields_pure.mpr (h.switches s.connect true)
  | forceClose => exact yields_pure.mpr h.forceClose
  | closeCallback errno =>
    simp only [step]
    split
    · next sockfd hcl => exact h.removeConnection hcl
    · exact yields_pure.mpr h
  | _ =>
    simp only [step]
    split
    · exact yields_pure.mpr h
    · next hcl => exact h.loopStep hcl hx

theorem Inv.oneAttempt (h : s.Inv) : s.OneAttempt := by
  unfold OneAttempt
  rw [h.connecting_eq]
  cases s.socket <;> simp

/--
A client that calls `Connect` only when its connector is at rest, and whose retry timers expire
after the channel of the last attempt has been freed, fails no assertion and never has two sockets
connecting.
-/
theorem one_attempt_at_a_time (labels : List ClientLabel) (h : Along step AtRest new labels) :
    Yields (run step new labels) OneAttempt :=
  (run_invariant step_inv new_inv h).mono fun _ h => h.oneAttempt

/-- Refused, retried, connected, closed by the peer and connected anew. -/
theorem one_attempt_at_a_time_reconnect :
    Yields (run step new
      [.enableRetry, .connect true .econnrefused, .poll [], .expire .einprogress, .handled, .ran,
        .poll [.connector 1], .handleEvent pollout 0 false false, .handled,
        .runFunctor .einprogress, .ran, .poll [.connection 1], .handleEvent pollin 0 false true,
        .closeCallback .einprogress]) OneAttempt := by
  refine one_attempt_at_a_time _ ?_
  refine along_cons trivial rfl ?_
  refine along_cons ⟨rfl, rfl, fun _ h => by cases h⟩ rfl ?_
  refine along_cons trivial rfl ?_
  refine along_cons (fun _ _ _ => rfl) rfl ?_
  iterate 10 refine along_cons trivial rfl ?_
  trivial

/-- The timer of an attempt that was stopped meets the attempt that was begun after it. -/
theorem stopped_timer_meets_new_attempt :
    ¬ Yields (run step new
      [.connect true .econnrefused, .stop, .connect true .einprogress, .poll [],
        .expire .einprogress]) OneAttempt := by
  rintro ⟨s, hs, -⟩
  cases hs

end Steps

end TcpClient

end Dwater
