import Dwater.Net.OutputStream

/-! # The dispatch of events to a connection

`Channel::HandleEvent` turns the events that the poller reported into calls of the
channel's callbacks, in a fixed order. A connection binds all four of them. A hang-up
without data is dispatched to the error callback, so a connection never closes on it.
-/

set_option autoImplicit false
namespace Dwater

open Fallible Buffer

def pollerr : BitVec 32 := 0x008

def pollhup : BitVec 32 := 0x010

def pollnval : BitVec 32 := 0x020

def pollrdhup : BitVec 32 := 0x2000

inductive ChannelCallback
  | read
  | write
  | close
  | error
  deriving DecidableEq, Repr

namespace Channel

/-- The callbacks that have been set. -/
structure Callbacks where
  read : Bool
  write : Bool
  close : Bool
  error : Bool
  deriving DecidableEq, Repr

/-- `HandleEventWithGuard`: the callbacks called for the reported events, in order. -/
def handleEventWithGuard (set : Callbacks) (revents : BitVec 32) : List ChannelCallback :=
  (if revents &&& pollhup ≠ 0 ∧ revents &&& pollin = 0 then
    -- the close callback is tested, the error callback is called
    if set.close then [.error] else []
  else []) ++
  (if revents &&& (pollerr ||| pollnval) ≠ 0 then
    if set.error then [.error] else []
  else []) ++
  (if revents &&& (pollin ||| pollpri ||| pollrdhup) ≠ 0 then
    if set.read then [.read] else []
  else []) ++
  (if revents &&& pollout ≠ 0 then
    if set.write then [.write] else []
  else [])

/-- `HandleEvent`: a tied channel whose owner is gone is passed over. -/
def handleEvent (ch : Channel) (ownerAlive : Bool) (set : Callbacks) (revents : BitVec 32) :
    List ChannelCallback :=
  if ch.tied && !ownerAlive then [] else handleEventWithGuard set revents

end Channel

namespace TcpConnection

def callbacks : Channel.Callbacks := ⟨true, true, true, true⟩

/-- `HandleError` reads `SO_ERROR` and logs it. -/
def handleError (c : TcpConnection) : TcpConnection × List Effect := (c, [])

/-- A callback of the channel, with the answers of the kernel to the reads and writes it makes. -/
def channelCallback (c : TcpConnection) (r : ReadvResult) (w : WriteResult) :
    ChannelCallback → Except Fault (TcpConnection × List Effect)
  | .read => c.handleRead r
  | .write => c.handleWrite w
  | .close => c.handleClose
  | .error => return c.handleError

def dispatch (r : ReadvResult) (w : WriteResult) :
    List ChannelCallback → TcpConnection → Except Fault (TcpConnection × List Effect)
  | [], c => return (c, [])
  | callback :: rest, c => do
    let (c, fx) ← c.channelCallback r w callback
    let (c, gx) ← dispatch r w rest c
    return (c, fx ++ gx)

def handleEvent (c : TcpConnection) (revents : BitVec 32) (r : ReadvResult) (w : WriteResult) :
    Except Fault (TcpConnection × List Effect) :=
  dispatch r w (c.channel.handleEvent true callbacks revents) c

/-- The connection was closed, with each callback called once. -/
def ClosedOnce (r : TcpConnection × List Effect) : Prop :=
  r.1.state = .kdisconnected ∧ r.1.channel.isNoneEvent = true ∧
    r.2.count (.connectionCallback false) = 1 ∧ r.2.count .closeCallback = 1

variable {c : TcpConnection} {r : ReadvResult} {w : WriteResult}

theorem handleWrite_state {x : TcpConnection × List Effect} (h : c.handleWrite w = .ok x) :
    x.1.state = c.state := by
  unfold handleWrite at h
  split at h
  · split at h
    · obtain ⟨b, _, h⟩ := bind_eq_ok h
      dsimp only at h
      split at h <;> cases h <;> rfl
    · cases h
      rfl
  · cases h
    rfl

theorem dispatch_state {callbacks : List ChannelCallback}
    (hc : ∀ x ∈ callbacks, x = .error ∨ x = .write) :
    ∀ {c : TcpConnection} {x : TcpConnection × List Effect},
      dispatch r w callbacks c = .ok x → x.1.state = c.state := by
  induction callbacks with
  | nil =>
    intro c x h
    cases h
    rfl
  | cons callback rest ih =>
    intro c x h
    obtain ⟨⟨d, fx⟩, hd, h⟩ := bind_eq_ok h
    obtain ⟨⟨e, gx⟩, he, h⟩ := bind_eq_ok h
    cases h
    have hstate : d.state = c.state := by
      rcases hc callback List.mem_cons_self with rfl | rfl
      · cases hd
        rfl
      · exact handleWrite_state hd
    exact (ih (fun y hy => hc y (List.mem_cons_of_mem _ hy)) he).trans hstate

theorem handleEvent_eq (ch : Channel) (revents : BitVec 32) :
    ch.handleEvent true callbacks revents =
      (if revents &&& pollhup ≠ 0 ∧ revents &&& pollin = 0 then [.error] else []) ++
      (if revents &&& (pollerr ||| pollnval) ≠ 0 then [.error] else []) ++
      (if revents &&& (pollin ||| pollpri ||| pollrdhup) ≠ 0 then [.read] else []) ++
      (if revents &&& pollout ≠ 0 then [.write] else []) := by
  unfold Channel.handleEvent
  rw [Bool.not_true, Bool.and_false, if_neg (by decide)]
  rfl

/-- A hang-up without data calls the error callback and perhaps the write callback. -/
theorem handleEvent_hup {ch : Channel} {revents : BitVec 32}
    (hin : revents &&& (pollin ||| pollpri ||| pollrdhup) = 0) :
    ∀ x ∈ ch.handleEvent true callbacks revents, x = .error ∨ x = .write := by
  intro x hx
  simp only [handleEvent_eq, hin, ne_eq, not_true_eq_false, if_false, List.append_nil,
    List.mem_append] at hx
  rcases hx with (hx | hx) | hx
  · split at hx
    · exact .inl (List.mem_singleton.mp hx)
    · cases hx
  · split at hx
    · exact .inl (List.mem_singleton.mp hx)
    · cases hx
  · split at hx
    · exact .inr (List.mem_singleton.mp hx)
    · cases hx

theorem error_mem_handleEvent {ch : Channel} {revents : BitVec 32}
    (hup : revents &&& pollhup ≠ 0) (hin : revents &&& pollin = 0) :
    .error ∈ ch.handleEvent true callbacks revents := by
  rw [handleEvent_eq, if_pos ⟨hup, hin⟩]
  simp

theorem and_pollin_eq_zero {revents : BitVec 32}
    (hin : revents &&& (pollin ||| pollpri ||| pollrdhup) = 0) : revents &&& pollin = 0 := by
  have hmask : (pollin ||| pollpri ||| pollrdhup) &&& pollin = pollin := by decide
  rw [← hmask, ← BitVec.and_assoc, hin]
  decide

/-- On a hang-up without data the error callback is called in place of the close callback, and an
established connection never closes. -/
theorem hang_up_never_closes (c : TcpConnection) (revents : BitVec 32) (r : ReadvResult)
    (w : WriteResult) (hs : c.state = .kconnected ∨ c.state = .kdisconnecting)
    (hup : revents &&& pollhup ≠ 0)
    (hin : revents &&& (pollin ||| pollpri ||| pollrdhup) = 0) :
    .error ∈ c.channel.handleEvent true callbacks revents ∧
      ¬ Yields (c.handleEvent revents r w) ClosedOnce := by
  refine ⟨error_mem_handleEvent hup (and_pollin_eq_zero hin), ?_⟩
  rintro ⟨x, hx, hclosed⟩
  have hstate : x.1.state = c.state := dispatch_state (handleEvent_hup hin) hx
  rw [← hstate, hclosed.1] at hs
  rcases hs with hs | hs <;> cases hs

/-- A hang-up reported together with writability. -/
theorem hang_up_never_closes_writable :
    .error ∈ idleConnection.channel.handleEvent true callbacks (pollhup ||| pollout) ∧
      ¬ Yields (handleEvent idleConnection (pollhup ||| pollout) (.bytes []) (.wrote 0))
        ClosedOnce :=
  hang_up_never_closes idleConnection _ _ _ (.inl rfl) (by decide) (by decide)

/-- A plain hang-up leaves a connected connection as it is. -/
theorem hang_up_leaves_connection_open :
    handleEvent idleConnection pollhup (.bytes []) (.wrote 0) = .ok (idleConnection, []) ∧
      ¬ Yields (handleEvent idleConnection pollhup (.bytes []) (.wrote 0)) ClosedOnce := by
  refine ⟨rfl, ?_⟩
  rintro ⟨x, hx, hclosed⟩
  cases hx
  exact absurd hclosed.1 (by decide)

end TcpConnection

end Dwater
