import Mathlib.Data.List.Count
import Dwater.Net.HandleEvent

/-! # A closed connection stays silent

A connection in its loop: the events that the poller reported and that are not handled
yet, the callbacks that the loop thread still has to make, and the functors queued for
the connection. Its owner queues `ConnectionDestroyed` some time after the close callback.
When no `StartReadInLoop` runs on a disconnected connection, the channel of a disconnected
connection has no interest, and neither `HandleClose` nor `Channel::Remove` fails.
-/

set_option autoImplicit false
namespace Dwater

open Fallible Buffer TcpConnection

/-- What the loop thread still has to do before it goes on with its loop. -/
inductive ConnFrame
  | channelCallback (x : ChannelCallback)
  | connectionCallback (connected : Bool)
  | messageCallback
  | closeCallback
  | removeChannel
  deriving DecidableEq, Repr

inductive ConnTask
  | connectionEstablished
  | functor (f : Functor)
  | connectionDestroyed
  deriving DecidableEq, Repr

/-- How far the owner is in removing the connection after its close callback. -/
inductive Removal
  | none
  | requested
  | queued
  deriving DecidableEq, Repr

/-- A connection that its owner handed to an io loop. -/
structure OwnedConnection where
  conn : TcpConnection
  polled : Option (BitVec 32)
  stack : List ConnFrame
  queue : List ConnTask
  removal : Removal
  deriving DecidableEq, Repr

/-- A step of the loop thread, a user's call on the loop thread or on another one, or the owner's
queueing of `ConnectionDestroyed`. -/
inductive OwnedLabel
  | poll (revents : BitVec 32)
  | handleEvent
  | proceed (r : ReadvResult) (w : WriteResult)
  | runFunctor (w : WriteResult)
  | send (inLoopThread : Bool) (message : List Byte) (w : WriteResult)
  | shutdown (inLoopThread : Bool)
  | forceClose
  | startRead (inLoopThread : Bool)
  | stopRead (inLoopThread : Bool)
  | queueDestroyed
  deriving DecidableEq, Repr

def Effect.connFrame : Effect → Option ConnFrame
  | .connectionCallback connected => some (.connectionCallback connected)
  | .messageCallback => some .messageCallback
  | .closeCallback => some .closeCallback
  | .removeChannel => some .removeChannel
  | _ => none

def Effect.connTask : Effect → Option ConnTask
  | .runInLoop f | .queueInLoop f => some (.functor f)
  | _ => none

/-- The events that lead to the read callback. -/
def readEvents : BitVec 32 := pollin ||| pollpri ||| pollrdhup

/-- A poller reports what was asked for, and errors and hang-ups. -/
def Reportable (ch : Channel) (revents : BitVec 32) : Prop :=
  revents &&& ~~~(ch.events ||| pollerr ||| pollhup ||| pollnval) = 0

instance (ch : Channel) (revents : BitVec 32) : Decidable (Reportable ch revents) :=
  inferInstanceAs (Decidable (_ = _))

namespace OwnedConnection

/-- The owner has queued `ConnectionEstablished`. -/
def new (conn : TcpConnection) : OwnedConnection :=
  { conn := conn, polled := none, stack := [], queue := [.connectionEstablished]
    removal := .none }

/-- Keep the connection a method leaves, queue its functors and stack its callbacks. -/
def after (s : OwnedConnection) (r : TcpConnection × List Effect) : OwnedConnection :=
  { s with
    conn := r.1
    stack := r.2.filterMap Effect.connFrame ++ s.stack
    queue := s.queue ++ r.2.filterMap Effect.connTask }

def execute (s : OwnedConnection) (w : WriteResult) : Functor → Except Fault OwnedConnection
  | .sendInLoop message => s.after <$> s.conn.sendInLoop message w
  | .shutdownInLoop => return s.after (s.conn, s.conn.shutdownInLoop)
  | .forceCloseInLoop => s.after <$> s.conn.forceCloseInLoop
  | .startReadInLoop => return s.after (s.conn.startReadInLoop, [])
  | .stopReadInLoop => return s.after (s.conn.stopReadInLoop, [])
  | .writeCompleteCallback | .highWaterMarkCallback _ => return s

/-- `RunInLoop(f)` by the loop thread or by another one. -/
def runInLoop (s : OwnedConnection) (inLoopThread : Bool) (f : Functor) :
    Except Fault OwnedConnection :=
  if inLoopThread then s.execute (.wrote 0) f
  else return { s with queue := s.queue ++ [.functor f] }

def call (s : OwnedConnection) (inLoopThread : Bool) (r : TcpConnection × List Effect) :
    Except Fault OwnedConnection :=
  match r.2 with
  | [.runInLoop f] => { s with conn := r.1 }.runInLoop inLoopThread f
  | _ => return s.after r

def proceed (s : OwnedConnection) (r : ReadvResult) (w : WriteResult) :
    Except Fault OwnedConnection :=
  match s.stack with
  | [] => return s
  | .channelCallback x :: frames =>
    -- the kernel takes no more than the backlog
    if x = .write ∧ s.conn.outputBuffer.readableBytes < w.count then return s
    else { s with stack := frames }.after <$> s.conn.channelCallback r w x
  | .connectionCallback _ :: frames | .messageCallback :: frames =>
    return { s with stack := frames }
  | .closeCallback :: frames => return { s with stack := frames, removal := .requested }
  | .removeChannel :: frames => do
    let conn ← s.conn.removeChannel
    return { s with conn := conn, stack := frames }

def runFunctor (s : OwnedConnection) (w : WriteResult) : Except Fault OwnedConnection :=
  match s.queue with
  | [] => return s
  | task :: tasks =>
    let s := { s with queue := tasks }
    match task with
    | .connectionEstablished => s.after <$> s.conn.connectionEstablished
    | .functor f => s.execute w f
    | .connectionDestroyed => return s.after s.conn.connectionDestroyed

/-- The loop thread has nothing reported left to handle and no callback left to make. -/
def idle (s : OwnedConnection) : Bool := s.polled = none ∧ s.stack = []

/-- The user has the connection: it was passed to a connection callback. -/
def known (s : OwnedConnection) : Bool := s.conn.state ≠ .kconnecting

def step (s : OwnedConnection) : OwnedLabel → Except Fault OwnedConnection
  | .poll revents =>
    if s.idle = true ∧ s.conn.channel.addedToLoop = true ∧ Reportable s.conn.channel revents then
      return { s with polled := some revents }
    else return s
  | .handleEvent =>
    match s.polled with
    | some revents =>
      return { s with
        polled := none
        stack := (s.conn.channel.handleEvent true callbacks revents).map .channelCallback ++
          s.stack }
    | none => return s
  | .proceed r w => s.proceed r w
  | .runFunctor w => if s.idle then s.runFunctor w else return s
  | .send inLoopThread message w =>
    if s.known then s.after <$> s.conn.send inLoopThread message w else return s
  | .shutdown inLoopThread =>
    if s.known then s.call inLoopThread s.conn.shutdown else return s
  | .forceClose => if s.known then return s.after s.conn.forceClose else return s
  | .startRead inLoopThread =>
    if s.known then s.call inLoopThread (s.conn, TcpConnection.startRead) else return s
  | .stopRead inLoopThread =>
    if s.known then s.call inLoopThread (s.conn, TcpConnection.stopRead) else return s
  | .queueDestroyed =>
    if s.removal = .requested then
      return { s with queue := s.queue ++ [.connectionDestroyed], removal := .queued }
    else return s

/-- The channel of a disconnected connection waits for nothing. -/
def Silent (s : OwnedConnection) : Prop :=
  s.conn.state = .kdisconnected → s.conn.channel.isNoneEvent = true

/-- `StartReadInLoop` does not run on a disconnected connection. -/
def ReadsWhileOpen (s : OwnedConnection) : OwnedLabel → Prop
  | .startRead true => s.conn.state ≠ .kdisconnected
  | .runFunctor _ => s.queue.head? = some (.functor .startReadInLoop) →
      s.conn.state ≠ .kdisconnected
  | _ => True

def IsOpen (c : TcpConnection) : Prop := c.state = .kconnected ∨ c.state = .kdisconnecting

/-- A read callback is still to be made, or will be when the reported events are handled. -/
def ReadPending (s : OwnedConnection) : Prop :=
  .channelCallback .read ∈ s.stack ∨ ∃ m, s.polled = some m ∧ m &&& readEvents ≠ 0

def Closing (s : OwnedConnection) : Prop :=
  s.removal ≠ .none ∨ .closeCallback ∈ s.stack ∨ .removeChannel ∈ s.stack ∨
    .connectionDestroyed ∈ s.queue

structure Inv (s : OwnedConnection) : Prop where
  input : s.conn.inputBuffer.Inv
  output : s.conn.outputBuffer.Inv
  connecting : s.conn.state = .kconnecting → s.conn.channel.addedToLoop = false ∧
    s.polled = none ∧ s.stack = [] ∧ s.queue = [.connectionEstablished]
  established : .connectionEstablished ∈ s.queue → s.conn.state = .kconnecting
  silent : s.Silent
  reading : s.ReadPending → IsOpen s.conn
  one_read : s.stack.count (.channelCallback .read) ≤ 1
  no_close : .channelCallback .close ∉ s.stack
  polled_stack : s.polled ≠ none → s.stack = []
  closing : s.Closing → s.conn.state = .kdisconnected

variable {s : OwnedConnection} {r : TcpConnection × List Effect}

/-- What a method may do to an established connection without closing it. -/
structure Steady (c : TcpConnection) (r : TcpConnection × List Effect) : Prop where
  input : r.1.inputBuffer.Inv
  output : r.1.outputBuffer.Inv
  opened : IsOpen c → IsOpen r.1
  closed : c.state = .kdisconnected → r.1.state = .kdisconnected
  silent : c.state = .kdisconnected → r.1.channel.isNoneEvent = true
  frames : ∀ e ∈ r.2, e.connFrame = none ∨ e.connFrame = some .messageCallback

theorem connTask_ne {t : ConnTask} (fx : List Effect) (h : t ∈ fx.filterMap Effect.connTask) :
    ∃ f, t = .functor f := by
  obtain ⟨e, _, he⟩ := List.mem_filterMap.mp h
  cases e with
  | runInLoop f | queueInLoop f =>
    cases he
    exact ⟨f, rfl⟩
  | _ => cases he

theorem Steady.mem_frames {c : TcpConnection} (h : Steady c r) {x : ConnFrame}
    (hx : x ∈ r.2.filterMap Effect.connFrame) : x = .messageCallback := by
  obtain ⟨e, he, hex⟩ := List.mem_filterMap.mp hx
  rcases h.frames e he with hn | hm
  · rw [hn] at hex
    cases hex
  · rw [hm] at hex
    exact (Option.some.inj hex).symm

theorem isOpen_or_closed {c : TcpConnection} (h : c.state ≠ .kconnecting) :
    IsOpen c ∨ c.state = .kdisconnected := by
  unfold IsOpen
  cases hc : c.state with
  | kconnecting => exact absurd hc h
  | kdisconnected => exact .inr rfl
  | kconnected => exact .inl (.inl rfl)
  | kdisconnecting => exact .inl (.inr rfl)

theorem IsOpen.ne {c : TcpConnection} (h : IsOpen c) :
    c.state ≠ .kconnecting ∧ c.state ≠ .kdisconnected := by
  rcases h with h | h <;> rw [h] <;> decide

theorem known_iff : s.known = true ↔ s.conn.state ≠ .kconnecting := by simp [known]

theorem Inv.steady (h : s.Inv) (hk : s.known = true) (hs : Steady s.conn r)
    (hp : s.polled ≠ none → r.2.filterMap Effect.connFrame = []) : (s.after r).Inv := by
  have hmem {x : ConnFrame} (hx : x ∈ (s.after r).stack) : x = .messageCallback ∨ x ∈ s.stack :=
    (List.mem_append.mp hx).imp_left hs.mem_frames
  have hcount : (r.2.filterMap Effect.connFrame).count (.channelCallback .read) = 0 := by
    rw [List.count_eq_zero]
    intro hx
    cases hs.mem_frames hx
  have hcases := isOpen_or_closed (known_iff.mp hk)
  refine ⟨hs.input, hs.output, ?_, ?_, ?_, ?_, ?_, ?_, ?_, ?_⟩
  · intro hc
    rcases hcases with ho | hd
    · exact absurd hc (hs.opened ho).ne.1
    · exact absurd (hc.symm.trans (hs.closed hd)) (by decide)
  · intro he
    rcases List.mem_append.mp he with he | he
    · exact absurd (h.established he) (known_iff.mp hk)
    · obtain ⟨f, hf⟩ := connTask_ne _ he
      cases hf
  · intro hd
    rcases hcases with ho | hc
    · exact absurd hd (hs.opened ho).ne.2
    · exact hs.silent hc
  · rintro (hr | hr)
    · rcases hmem hr with hr | hr
      · cases hr
      · exact hs.opened (h.reading (.inl hr))
    · exact hs.opened (h.reading (.inr hr))
  · change (r.2.filterMap Effect.connFrame ++ s.stack).count _ ≤ 1
    rw [List.count_append, hcount, Nat.zero_add]
    exact h.one_read
  · intro hx
    rcases hmem hx with hx | hx
    · cases hx
    · exact h.no_close hx
  · intro hpoll
    change r.2.filterMap Effect.connFrame ++ s.stack = []
    rw [hp hpoll, h.polled_stack hpoll]
    rfl
  · intro hc
    apply hs.closed
    apply h.closing
    rcases hc with hc | hc | hc | hc
    · exact .inl hc
    · exact .inr (.inl ((hmem hc).resolve_left nofun))
    · exact .inr (.inr (.inl ((hmem hc).resolve_left nofun)))
    · rcases List.mem_append.mp hc with hc | hc
      · exact .inr (.inr (.inr hc))
      · obtain ⟨f, hf⟩ := connTask_ne _ hc
        cases hf

/-- What a method does that closes an open connection. -/
structure Closes (r : TcpConnection × List Effect) : Prop where
  input : r.1.inputBuffer.Inv
  output : r.1.outputBuffer.Inv
  closed : r.1.state = .kdisconnected
  silent : r.1.channel.isNoneEvent = true
  effects : r.2 = [.connectionCallback false, .closeCallback]

theorem Inv.close (h : s.Inv) (ho : s.conn.state ≠ .kconnecting) (hp : s.polled = none)
    (hr : .channelCallback .read ∉ s.stack) (hs : Closes r) : (s.after r).Inv := by
  have hstack : (s.after r).stack = .connectionCallback false :: .closeCallback :: s.stack := by
    simp [after, hs.effects, Effect.connFrame]
  have hqueue : (s.after r).queue = s.queue := by
    simp [after, hs.effects, Effect.connTask]
  have hne : r.1.state ≠ .kconnecting := by rw [hs.closed]; decide
  refine ⟨hs.input, hs.output, fun hc => absurd hc hne, ?_, fun _ => hs.silent, ?_, ?_, ?_,
    fun hpoll => absurd hp hpoll, fun _ => hs.closed⟩
  · rw [hqueue]
    intro he
    exact absurd (h.established he) ho
  · rintro (hx | ⟨m, hm, _⟩)
    · rw [hstack] at hx
      simp only [List.mem_cons, reduceCtorEq, false_or] at hx
      exact absurd hx hr
    · exact absurd (hp.symm.trans hm) (by simp)
  · rw [hstack]
    simpa [List.count_cons] using h.one_read
  · rw [hstack]
    simpa using h.no_close

section Methods

variable {c : TcpConnection} {w : WriteResult}

/-- The buffers are well formed and a disconnected connection waits for nothing. -/
structure Sound (c : TcpConnection) : Prop where
  input : c.inputBuffer.Inv
  output : c.outputBuffer.Inv
  silent : c.state = .kdisconnected → c.channel.isNoneEvent = true

theorem Inv.sound (h : s.Inv) : Sound s.conn := ⟨h.input, h.output, h.silent⟩

theorem Sound.steady (h : Sound c) {fx : List Effect} (hf : ∀ e ∈ fx, e.connFrame = none) :
    Steady c (c, fx) :=
  ⟨h.input, h.output, id, id, h.silent, fun e he => .inl (hf e he)⟩

theorem connFrame_of_output {e : Effect} (h : Effect.IsOutput e) : e.connFrame = none := by
  cases e <;> first | rfl | cases h

theorem Sound.sendInLoop (h : Sound c) (data : List Byte) :
    Yields (c.sendInLoop data w) fun r => Steady c r ∧ ∀ e ∈ r.2, e.connFrame = none := by
  by_cases hd : c.state = .kdisconnected
  · unfold TcpConnection.sendInLoop
    rw [if_pos hd]
    exact yields_pure.mpr ⟨h.steady (by simp), by simp⟩
  · refine (sendInLoop_yields h.output.represents hd).mono fun r hr => ?_
    have hframes (e : Effect) (he : e ∈ r.2) : e.connFrame = none :=
      connFrame_of_output (hr.output e he)
    obtain ⟨q', hq', _⟩ := hr.backlog
    refine ⟨⟨hr.input_eq ▸ h.input, hq'.1, ?_, ?_, fun hc => absurd hc hd,
      fun e he => .inl (hframes e he)⟩, hframes⟩
    · unfold IsOpen
      rw [hr.state_eq]
      exact id
    · exact fun hc => absurd hc hd

theorem Sound.send (h : Sound c) (inLoopThread : Bool) (message : List Byte) :
    Yields (c.send inLoopThread message w) fun r =>
      Steady c r ∧ ∀ e ∈ r.2, e.connFrame = none := by
  unfold TcpConnection.send
  split
  · split
    · exact h.sendInLoop message
    · exact yields_pure.mpr ⟨h.steady (by simp [Effect.connFrame]), by simp [Effect.connFrame]⟩
  · exact yields_pure.mpr ⟨h.steady (by simp), by simp⟩

theorem Sound.shutdownInLoop (h : Sound c) : Steady c (c, c.shutdownInLoop) := by
  refine h.steady ?_
  unfold TcpConnection.shutdownInLoop
  split <;> simp [Effect.connFrame]

theorem Sound.startReadInLoop (h : Sound c) (hd : c.state ≠ .kdisconnected) :
    Steady c (c.startReadInLoop, []) := by
  unfold TcpConnection.startReadInLoop
  split
  · exact ⟨h.input, h.output, id, id, fun hc => absurd hc hd, by simp⟩
  · exact h.steady (by simp)

theorem Sound.stopReadInLoop (h : Sound c) : Steady c (c.stopReadInLoop, []) := by
  unfold TcpConnection.stopReadInLoop
  split
  · refine ⟨h.input, h.output, id, id, fun hc => ?_, by simp⟩
    exact Channel.isNoneEvent_disableReading _ (h.silent hc)
  · exact h.steady (by simp)

theorem Sound.disconnecting (h : Sound c) (ho : IsOpen c) :
    Steady c (c.setState .kdisconnecting, []) :=
  ⟨h.input, h.output, fun _ => .inr rfl, fun hc => absurd hc ho.ne.2, fun hc => absurd hc ho.ne.2,
    by simp⟩

theorem Sound.forceClose (h : Sound c) : Steady c c.forceClose := by
  unfold TcpConnection.forceClose
  split
  · next ho =>
    have hd := IsOpen.ne ho
    exact ⟨h.input, h.output, fun _ => .inr rfl, fun hc => absurd hc hd.2,
      fun hc => absurd hc hd.2, by simp [Effect.connFrame]⟩
  · exact h.steady (by simp)

theorem Sound.handleClose (h : Sound c) (ho : IsOpen c) : Yields c.handleClose Closes := by
  have hs : c.state = .kconnected ∨ c.state = .kdisconnecting := ho
  unfold TcpConnection.handleClose
  rw [check_bind_of_true hs]
  exact yields_pure.mpr ⟨h.input, h.output, rfl, Channel.isNoneEvent_disableAll _, rfl⟩

theorem Sound.forceCloseInLoop (h : Sound c) :
    Yields c.forceCloseInLoop fun r => Closes r ∨ r = (c, []) := by
  unfold TcpConnection.forceCloseInLoop
  split
  · next ho => exact (h.handleClose ho).mono fun _ hr => .inl hr
  · exact yields_pure.mpr (.inr rfl)

theorem Sound.removeChannel (h : Sound c) (hd : c.state = .kdisconnected) :
    Yields c.removeChannel fun d => Steady c (d, []) := by
  unfold TcpConnection.removeChannel Channel.remove
  rw [check_bind_of_true (h.silent hd)]
  exact yields_pure.mpr ⟨h.input, h.output, id, id, h.silent, by simp⟩

theorem Sound.handleWrite (h : Sound c) (hw : w.Within c.outputBuffer.readableBytes) :
    Yields (c.handleWrite w) (Steady c) := by
  have hw' : w.Within c.outputBuffer.content.length := h.output.length_content ▸ hw
  refine (handleWrite_yields h.output.represents hw').mono fun r hr => ?_
  cases hr with
  | idle => exact h.steady (by simp)
  | some _ _ _ hb => exact ⟨h.input, hb.1, id, id, h.silent, by simp [Effect.connFrame]⟩
  | all hi _ hb =>
    refine ⟨h.input, hb.1, id, id, fun hc => ?_, fun e he => .inl ?_⟩
    · exact absurd (Channel.isWriting_of_isNoneEvent _ (h.silent hc)) (by simp [hi])
    · rw [List.cons_append, List.mem_cons, List.mem_append] at he
      rcases he with rfl | he | he
      · rfl
      · exact connFrame_of_output (queueWriteComplete_output he)
      · split at he
        · rw [List.mem_singleton.mp he]
          rfl
        · cases he

theorem Sound.handleRead (h : Sound c) (ho : IsOpen c) (x : ReadvResult) :
    Yields (c.handleRead x) fun r => Steady c r ∨ Closes r := by
  have hread : Yields (c.inputBuffer.readFd x) fun y => y.1.Inv := by
    cases x with
    | bytes data => exact (readFd_represents h.input.represents data).mono fun _ hy => hy.1.1
    | error e => exact (readFd_error_represents h.input.represents e).mono fun _ hy => hy.1.1
  refine yields_bind hread fun y hy => ?_
  obtain ⟨b, n, e⟩ := y
  have hs : Sound { c with inputBuffer := b } := ⟨hy, h.output, h.silent⟩
  dsimp only
  split
  · refine yields_pure.mpr (.inl ⟨hy, h.output, id, id, h.silent, ?_⟩)
    simp [Effect.connFrame]
  · split
    · exact (hs.handleClose ho).mono fun _ hr => .inr hr
    · exact yields_pure.mpr (.inl ⟨hy, h.output, id, id, h.silent, by simp⟩)

end Methods

theorem after_nil (s : OwnedConnection) (c : TcpConnection) :
    s.after (c, []) = { s with conn := c } := by
  simp [after]

theorem idle_iff : s.idle = true ↔ s.polled = none ∧ s.stack = [] := by simp [idle]

theorem Inv.queueFunctor (h : s.Inv) (hk : s.known = true) (f : Functor) :
    Inv { s with queue := s.queue ++ [.functor f] } := by
  have hs : Steady s.conn (s.conn, [.queueInLoop f]) := h.sound.steady (by simp [Effect.connFrame])
  exact h.steady hk hs fun _ => rfl

theorem Inv.execute (h : s.Inv) (hk : s.known = true) (w : WriteResult) (f : Functor)
    (hforce : f = .forceCloseInLoop → s.idle = true)
    (hstart : f = .startReadInLoop → s.conn.state ≠ .kdisconnected) :
    Yields (s.execute w f) Inv := by
  cases f with
  | sendInLoop message =>
    refine yields_map (h.sound.sendInLoop message) fun r hr => h.steady hk hr.1 fun _ => ?_
    exact List.filterMap_eq_nil_iff.mpr hr.2
  | shutdownInLoop =>
    refine yields_pure.mpr (h.steady hk h.sound.shutdownInLoop fun _ => ?_)
    unfold TcpConnection.shutdownInLoop
    split <;> rfl
  | forceCloseInLoop =>
    obtain ⟨hp, hst⟩ := idle_iff.mp (hforce rfl)
    refine yields_map h.sound.forceCloseInLoop ?_
    rintro r (hr | rfl)
    · exact h.close (known_iff.mp hk) hp (by simp [hst]) hr
    · rw [after_nil]
      exact h
  | startReadInLoop =>
    exact yields_pure.mpr (h.steady hk (h.sound.startReadInLoop (hstart rfl)) fun _ => rfl)
  | stopReadInLoop =>
    exact yields_pure.mpr (h.steady hk h.sound.stopReadInLoop fun _ => rfl)
  | writeCompleteCallback => exact yields_pure.mpr h
  | highWaterMarkCallback len => exact yields_pure.mpr h

theorem Inv.runInLoop (h : s.Inv) (hk : s.known = true) (inLoopThread : Bool) (f : Functor)
    (hforce : f ≠ .forceCloseInLoop)
    (hstart : inLoopThread = true → f = .startReadInLoop → s.conn.state ≠ .kdisconnected) :
    Yields (s.runInLoop inLoopThread f) Inv := by
  unfold OwnedConnection.runInLoop
  split
  · next ht => exact h.execute hk _ f (fun hf => absurd hf hforce) (hstart ht)
  · exact yields_pure.mpr (h.queueFunctor hk f)

theorem Inv.shutdown (h : s.Inv) (hk : s.known = true) (inLoopThread : Bool) :
    Yields (s.call inLoopThread s.conn.shutdown) Inv := by
  unfold TcpConnection.shutdown
  split
  · next hs =>
    have hd : Inv { s with conn := s.conn.setState .kdisconnecting } := by
      rw [← after_nil]
      exact h.steady hk (h.sound.disconnecting (.inl hs)) fun _ => rfl
    exact hd.runInLoop (by simp [known, setState]) inLoopThread .shutdownInLoop (by decide)
      (fun _ hf => by cases hf)
  · simp only [call]
    rw [after_nil]
    exact yields_pure.mpr h

theorem Inv.pop (h : s.Inv) {x : ConnFrame} {frames : List ConnFrame}
    (hst : s.stack = x :: frames) :
    Inv { s with stack := frames } ∧ s.known = true ∧ s.polled = none := by
  have hk : s.known = true := by
    rw [known_iff]
    intro hc
    exact absurd ((h.connecting hc).2.2.1.symm.trans hst) (by simp)
  have hp : s.polled = none := by
    by_contra hp
    exact absurd ((h.polled_stack hp).symm.trans hst) (by simp)
  have hmem {y : ConnFrame} (hy : y ∈ frames) : y ∈ s.stack := hst ▸ List.mem_cons_of_mem x hy
  refine ⟨⟨h.input, h.output, fun hc => absurd hc (known_iff.mp hk), h.established,
    h.silent, ?_, ?_,
    fun hy => h.no_close (hmem hy), fun hne => absurd hp hne, ?_⟩, hk, hp⟩
  · rintro (hr | hr)
    · exact h.reading (.inl (hmem hr))
    · exact h.reading (.inr hr)
  · refine le_trans (List.Sublist.count_le _ ?_) h.one_read
    rw [hst]
    exact List.sublist_cons_self x frames
  · rintro (hc | hc | hc | hc)
    · exact h.closing (.inl hc)
    · exact h.closing (.inr (.inl (hmem hc)))
    · exact h.closing (.inr (.inr (.inl (hmem hc))))
    · exact h.closing (.inr (.inr (.inr hc)))

theorem Inv.channelCallback (h : s.Inv) {x : ChannelCallback} {frames : List ConnFrame}
    (hst : s.stack = .channelCallback x :: frames) (r : ReadvResult) {w : WriteResult}
    (hw : ¬ (x = .write ∧ s.conn.outputBuffer.readableBytes < w.count)) :
    Yields (after { s with stack := frames } <$> s.conn.channelCallback r w x) Inv := by
  obtain ⟨hpop, hk, hp⟩ := h.pop hst
  have hnone {r : TcpConnection × List Effect} (hne : s.polled ≠ none) :
      r.2.filterMap Effect.connFrame = [] := absurd hp hne
  cases x with
  | error =>
    refine yields_map (yields_pure.mpr rfl : Yields (pure s.conn.handleError) (· = (s.conn, []))) ?_
    rintro r rfl
    rw [after_nil]
    exact hpop
  | close => exact absurd (hst ▸ List.mem_cons_self) h.no_close
  | write =>
    have hwithin : w.Within s.conn.outputBuffer.readableBytes := by
      by_contra hlt
      exact hw ⟨rfl, not_le.mp hlt⟩
    exact yields_map (h.sound.handleWrite hwithin) fun r hr => hpop.steady hk hr hnone
  | read =>
    have ho : IsOpen s.conn := h.reading (.inl (hst ▸ List.mem_cons_self))
    have hlast : .channelCallback .read ∉ frames := by
      have hone := h.one_read
      rw [hst, List.count_cons_self] at hone
      exact List.count_eq_zero.mp (by omega)
    refine yields_map (h.sound.handleRead ho r) ?_
    rintro x (hr | hr)
    · exact hpop.steady hk hr hnone
    · exact hpop.close ho.ne.1 hp hlast hr

theorem Inv.proceed (h : s.Inv) (r : ReadvResult) (w : WriteResult) :
    Yields (s.proceed r w) Inv := by
  unfold OwnedConnection.proceed
  split
  · exact yields_pure.mpr h
  · next x frames hst =>
    split
    · exact yields_pure.mpr h
    · next hw => exact h.channelCallback hst r hw
  · next hst => exact yields_pure.mpr (h.pop hst).1
  · next hst => exact yields_pure.mpr (h.pop hst).1
  · next frames hst =>
    have hpop := (h.pop hst).1
    have hd : s.conn.state = .kdisconnected :=
      h.closing (.inr (.inl (hst ▸ List.mem_cons_self)))
    exact yields_pure.mpr ⟨hpop.input, hpop.output, hpop.connecting, hpop.established, hpop.silent,
      hpop.reading, hpop.one_read, hpop.no_close, hpop.polled_stack, fun _ => hd⟩
  · next frames hst =>
    obtain ⟨hpop, hk, hp⟩ := h.pop hst
    have hd : s.conn.state = .kdisconnected :=
      h.closing (.inr (.inr (.inl (hst ▸ List.mem_cons_self))))
    refine yields_bind (h.sound.removeChannel hd) fun c hc => yields_pure.mpr ?_
    rw [← after_nil { s with stack := frames }]
    exact hpop.steady hk hc fun _ => rfl

theorem Inv.connectionEstablished (h : s.Inv) (hp : s.polled = none) {tasks : List ConnTask}
    (hq : s.queue = .connectionEstablished :: tasks) :
    Yields (after { s with queue := tasks } <$> s.conn.connectionEstablished) Inv := by
  have hc : s.conn.state = .kconnecting := h.established (hq ▸ List.mem_cons_self)
  obtain ⟨_, _, hstack, hqueue⟩ := h.connecting hc
  obtain rfl : tasks = [] := (List.cons.inj (hq.symm.trans hqueue)).2
  have hclosing : ¬ s.Closing := fun hx => absurd (hc.symm.trans (h.closing hx)) (by decide)
  unfold TcpConnection.connectionEstablished
  rw [check_bind_of_true hc]
  refine yields_pure.mpr ⟨h.input, h.output, nofun, by simp [after, Effect.connTask], nofun, ?_, ?_,
    ?_, fun hne => absurd hp hne, ?_⟩
  · exact fun _ => .inl rfl
  · simp [after, Effect.connFrame, hstack]
  · simp [after, Effect.connFrame, hstack]
  · rintro (hx | hx | hx | hx)
    · exact absurd (.inl hx) hclosing
    · simp [after, Effect.connFrame, hstack] at hx
    · simp [after, Effect.connFrame, hstack] at hx
    · simp [after, Effect.connTask] at hx

theorem Inv.dequeue (h : s.Inv) (hk : s.known = true) {task : ConnTask} {tasks : List ConnTask}
    (hq : s.queue = task :: tasks) : Inv { s with queue := tasks } := by
  have hmem {y : ConnTask} (hy : y ∈ tasks) : y ∈ s.queue := hq ▸ List.mem_cons_of_mem task hy
  refine ⟨h.input, h.output, fun hc => absurd hc (known_iff.mp hk),
    fun he => h.established (hmem he),
    h.silent, h.reading, h.one_read, h.no_close, h.polled_stack, ?_⟩
  rintro (hc | hc | hc | hc)
  · exact h.closing (.inl hc)
  · exact h.closing (.inr (.inl hc))
  · exact h.closing (.inr (.inr (.inl hc)))
  · exact h.closing (.inr (.inr (.inr (hmem hc))))

theorem Inv.connectionDestroyed (h : s.Inv) (hd : s.conn.state = .kdisconnected)
    (hp : s.polled = none) : (s.after s.conn.connectionDestroyed).Inv := by
  have hr : s.conn.connectionDestroyed = (s.conn, [.removeChannel]) := by
    unfold TcpConnection.connectionDestroyed
    rw [if_neg (by rw [hd]; decide)]
  have hafter : s.after (s.conn, [.removeChannel]) =
      { s with stack := .removeChannel :: s.stack } := by
    simp [after, Effect.connFrame, Effect.connTask]
  rw [hr, hafter]
  refine ⟨h.input, h.output, fun hc => absurd (hc.symm.trans hd) (by decide), h.established,
    h.silent, ?_, by simpa [List.count_cons] using h.one_read, by simpa using h.no_close,
    fun hne => absurd hp hne, fun _ => hd⟩
  rintro (hx | hx)
  · rw [List.mem_cons] at hx
    exact h.reading (.inl (hx.resolve_left nofun))
  · exact h.reading (.inr hx)

theorem Inv.runFunctor (h : s.Inv) (hi : s.idle = true) (w : WriteResult)
    (hx : s.queue.head? = some (.functor .startReadInLoop) → s.conn.state ≠ .kdisconnected) :
    Yields (s.runFunctor w) Inv := by
  obtain ⟨hp, hst⟩ := idle_iff.mp hi
  unfold OwnedConnection.runFunctor
  split
  · exact yields_pure.mpr h
  · next task tasks hq =>
    have hk (hne : task ≠ .connectionEstablished) : s.known = true := by
      rw [known_iff]
      intro hc
      exact hne (List.cons.inj (hq.symm.trans (h.connecting hc).2.2.2)).1
    cases task with
    | connectionEstablished => exact h.connectionEstablished hp hq
    | functor f =>
      refine (h.dequeue (hk nofun) hq).execute (hk nofun) w f (fun _ => idle_iff.mpr ⟨hp, hst⟩) ?_
      rintro rfl
      exact hx (by rw [hq]; rfl)
    | connectionDestroyed =>
      have hd : s.conn.state = .kdisconnected :=
        h.closing (.inr (.inr (.inr (hq ▸ List.mem_cons_self))))
      exact yields_pure.mpr ((h.dequeue (hk nofun) hq).connectionDestroyed hd hp)

/-- Events that lead to a read callback are reported only to a channel that waits for them. -/
theorem isNoneEvent_of_reportable {ch : Channel} {revents : BitVec 32} (h : Reportable ch revents)
    (hr : revents &&& readEvents ≠ 0) : ch.isNoneEvent = false := by
  rw [Bool.eq_false_iff]
  intro hn
  have he : ch.events = Channel.knoneEvent := by simpa [Channel.isNoneEvent] using hn
  have hmask : ~~~(Channel.knoneEvent ||| pollerr ||| pollhup ||| pollnval) &&& readEvents =
      readEvents := by decide
  apply hr
  rw [Reportable, he] at h
  rw [← hmask, ← BitVec.and_assoc, h]
  decide

theorem Inv.poll (h : s.Inv) (hi : s.idle = true) (ha : s.conn.channel.addedToLoop = true)
    {revents : BitVec 32} (hr : Reportable s.conn.channel revents) :
    Inv { s with polled := some revents } := by
  obtain ⟨hp, hst⟩ := idle_iff.mp hi
  have hk : s.conn.state ≠ .kconnecting := by
    intro hc
    exact absurd ((h.connecting hc).1.symm.trans ha) (by decide)
  refine ⟨h.input, h.output, fun hc => absurd hc hk, h.established, h.silent, ?_, h.one_read,
    h.no_close, fun _ => hst, h.closing⟩
  rintro (hx | ⟨m, hm, hx⟩)
  · exact h.reading (.inl hx)
  · cases hm
    refine (isOpen_or_closed hk).resolve_right fun hd => ?_
    exact absurd (h.silent hd) (by simp [isNoneEvent_of_reportable hr hx])

theorem count_read_handleEvent (ch : Channel) (revents : BitVec 32) :
    (ch.handleEvent true callbacks revents).count .read ≤ 1 := by
  rw [handleEvent_eq]
  split_ifs <;> decide

theorem close_notMem_handleEvent (ch : Channel) (revents : BitVec 32) :
    .close ∉ ch.handleEvent true callbacks revents := by
  rw [handleEvent_eq]
  split_ifs <;> decide

theorem read_mem_handleEvent {ch : Channel} {revents : BitVec 32}
    (h : .read ∈ ch.handleEvent true callbacks revents) : revents &&& readEvents ≠ 0 := by
  intro hr
  rcases handleEvent_hup hr .read h with he | he <;> cases he

theorem Inv.handleEvent (h : s.Inv) {revents : BitVec 32} (hp : s.polled = some revents) :
    Inv { s with
      polled := none
      stack := (s.conn.channel.handleEvent true callbacks revents).map .channelCallback ++
        s.stack } := by
  have hst : s.stack = [] := h.polled_stack (by simp [hp])
  have hk : s.conn.state ≠ .kconnecting := by
    intro hc
    exact absurd ((h.connecting hc).2.1.symm.trans hp) (by simp)
  have hmem {x : ConnFrame} (hx : x ∈ (s.conn.channel.handleEvent true callbacks revents).map
      .channelCallback ++ s.stack) :
      ∃ y ∈ s.conn.channel.handleEvent true callbacks revents, x = .channelCallback y := by
    rw [hst, List.append_nil] at hx
    obtain ⟨y, hy, rfl⟩ := List.mem_map.mp hx
    exact ⟨y, hy, rfl⟩
  refine ⟨h.input, h.output, fun hc => absurd hc hk, h.established, h.silent, ?_, ?_, ?_,
    fun hne => absurd rfl hne, ?_⟩
  · rintro (hx | ⟨m, hm, _⟩)
    · obtain ⟨y, hy, hxy⟩ := hmem hx
      cases hxy
      exact h.reading (.inr ⟨revents, hp, read_mem_handleEvent hy⟩)
    · cases hm
  · rw [hst, List.append_nil, List.count_map_of_injective _ _ fun x y hxy => by cases hxy; rfl]
    exact count_read_handleEvent _ _
  · intro hx
    obtain ⟨y, hy, hxy⟩ := hmem hx
    cases hxy
    exact close_notMem_handleEvent _ _ hy
  · rintro (hx | hx | hx | hx)
    · exact h.closing (.inl hx)
    · obtain ⟨y, _, hxy⟩ := hmem hx
      cases hxy
    · obtain ⟨y, _, hxy⟩ := hmem hx
      cases hxy
    · exact h.closing (.inr (.inr (.inr hx)))

theorem step_inv (s : OwnedConnection) (x : OwnedLabel) (h : s.Inv) (hx : s.ReadsWhileOpen x) :
    Yields (s.step x) Inv := by
  cases x with
  | poll revents =>
    simp only [step]
    split
    · next hg => exact yields_pure.mpr (h.poll hg.1 hg.2.1 hg.2.2)
    · exact yields_pure.mpr h
  | handleEvent =>
    simp only [step]
    split
    · next hp => exact yields_pure.mpr (h.handleEvent hp)
    · exact yields_pure.mpr h
  | proceed r w => exact h.proceed r w
  | runFunctor w =>
    simp only [step]
    split
    · next hi => exact h.runFunctor hi w hx
    · exact yields_pure.mpr h
  | send inLoopThread message w =>
    simp only [step]
    split
    · next hk =>
      refine yields_map (h.sound.send inLoopThread message) fun r hr => h.steady hk hr.1 fun _ => ?_
      exact List.filterMap_eq_nil_iff.mpr hr.2
    · exact yields_pure.mpr h
  | shutdown inLoopThread =>
    simp only [step]
    split
    · next hk => exact h.shutdown hk inLoopThread
    · exact yields_pure.mpr h
  | forceClose =>
    simp only [step]
    split
    · next hk =>
      refine yields_pure.mpr (h.steady hk h.sound.forceClose fun _ => ?_)
      unfold TcpConnection.forceClose
      split <;> rfl
    · exact yields_pure.mpr h
  | startRead inLoopThread =>
    simp only [step]
    split
    · next hk =>
      refine h.runInLoop hk inLoopThread .startReadInLoop (by decide) ?_
      rintro rfl _
      exact hx
    · exact yields_pure.mpr h
  | stopRead inLoopThread =>
    simp only [step]
    split
    · next hk =>
      exact h.runInLoop hk inLoopThread .stopReadInLoop (by decide) (fun _ hf => by cases hf)
    · exact yields_pure.mpr h
  | queueDestroyed =>
    simp only [step]
    split
    · next hr =>
      have hd : s.conn.state = .kdisconnected := h.closing (.inl (by rw [hr]; decide))
      refine yields_pure.mpr ⟨h.input, h.output, fun hc => absurd (hc.symm.trans hd) (by decide),
        ?_,
        h.silent, h.reading, h.one_read, h.no_close, h.polled_stack, fun _ => hd⟩
      intro he
      exact h.established ((List.mem_append.mp he).resolve_right (by simp))
    · exact yields_pure.mpr h

theorem new_inv {c : TcpConnection} {sockfd : ℕ} (h : TcpConnection.new sockfd = .ok c) :
    (new c).Inv := by
  obtain ⟨b, hb, h⟩ := bind_eq_ok h
  obtain ⟨b', hb', h⟩ := bind_eq_ok h
  have hin : b.Represents [] := (new_represents kinitialSize).of_eq hb
  have hout : b'.Represents [] := (new_represents kinitialSize).of_eq hb'
  cases h
  refine ⟨hin.1, hout.1, fun _ => ⟨rfl, rfl, rfl, rfl⟩, fun _ => rfl, nofun, ?_, Nat.zero_le _,
    nofun, fun hne => absurd rfl hne, ?_⟩
  · rintro (hx | ⟨m, hm, _⟩)
    · cases hx
    · cases hm
  · rintro (hx | hx | hx | hx)
    · exact absurd rfl hx
    · cases hx
    · cases hx
    · cases hx with | tail _ hx => cases hx

/-- In a run in which `StartReadInLoop` does not run on a disconnected connection, a disconnected
connection waits for nothing, and no assertion of `HandleClose` or `Channel::Remove` fails. -/
theorem closed_connection_silent (sockfd : ℕ) (c : TcpConnection)
    (hc : TcpConnection.new sockfd = .ok c) (labels : List OwnedLabel)
    (h : Along step ReadsWhileOpen (new c) labels) : Yields (run step (new c) labels) Silent :=
  (run_invariant step_inv (new_inv hc) h).mono fun _ hs => hs.silent

def fresh (sockfd : ℕ) : TcpConnection :=
  let buffer : Buffer :=
    ⟨List.replicate (kcheapPrepend + kinitialSize) 0, kcheapPrepend, kcheapPrepend⟩
  { state := .kconnecting, reading := true, channel := .new sockfd, writeCompleteCallback := false
    highWaterMarkCallback := false, highWaterMark := 64 * 1024 * 1024, inputBuffer := buffer
    outputBuffer := buffer }

theorem new_eq_fresh (sockfd : ℕ) : TcpConnection.new sockfd = .ok (fresh sockfd) := by
  unfold TcpConnection.new
  rw [Buffer.new_eq]
  rfl

/-- A connection is closed by force and removed. -/
theorem closed_connection_silent_removed :
    TcpConnection.new 7 = .ok (fresh 7) ∧ Yields (run step (new (fresh 7))
      [.runFunctor (.wrote 0), .proceed (.bytes []) (.wrote 0), .startRead true, .forceClose,
        .runFunctor (.wrote 0), .proceed (.bytes []) (.wrote 0), .proceed (.bytes []) (.wrote 0),
        .queueDestroyed, .runFunctor (.wrote 0), .proceed (.bytes []) (.wrote 0)]) Silent := by
  refine ⟨new_eq_fresh 7, closed_connection_silent 7 _ (new_eq_fresh 7) _ ?_⟩
  refine along_cons (fun hq => by cases hq) rfl (along_cons trivial rfl ?_)
  refine along_cons nofun rfl (along_cons trivial rfl ?_)
  refine along_cons (fun hq => by cases hq) rfl (along_cons trivial rfl ?_)
  refine along_cons trivial rfl (along_cons trivial rfl ?_)
  exact along_cons (fun hq => by cases hq) rfl (along_cons trivial rfl trivial)

/-- `StartRead` called from the callback that announces the end of a connection waits for
readability again, and the removal of the channel fails. -/
theorem startRead_after_close_fails :
    TcpConnection.new 7 = .ok (fresh 7) ∧ run step (new (fresh 7))
      [.runFunctor (.wrote 0), .proceed (.bytes []) (.wrote 0), .forceClose, .runFunctor (.wrote 0),
        .startRead true, .proceed (.bytes []) (.wrote 0), .proceed (.bytes []) (.wrote 0),
        .queueDestroyed, .runFunctor (.wrote 0), .proceed (.bytes []) (.wrote 0)] =
          .error (.assertion .channel_cc 54) :=
  ⟨new_eq_fresh 7, rfl⟩

end OwnedConnection

end Dwater
