import Dwater.Net.HandleEvent

/-! # The connector

The methods of a connector as functions of its members and of what the system calls
return. What a method does outside the object is its list of effects, in order.
-/

set_option autoImplicit false
namespace Dwater

open Fallible

/-- `errno` after `connect`, with `none` for success. -/
inductive ConnectErrno
  | none
  | einprogress | eintr | eisconn
  | eagain | eaddrinuse | eaddrnotavail | econnrefused | enetunreach
  | eacces | eperm | eafnosupport | ealready | ebadf | efault | enotsock
  | other (code : ℕ)
  deriving DecidableEq, Repr

/-- `connect` leaves an attempt in progress. -/
def ConnectErrno.inProgress : ConnectErrno → Bool
  | .none | .einprogress | .eintr | .eisconn => true
  | _ => false

inductive ConnectorState
  | kdisconnected
  | kconnecting
  | kconnected
  deriving DecidableEq, Repr

/-- The functors that a connector binds for its loop. -/
inductive ConnectorFunctor
  | startInLoop
  | stopInLoop
  | resetChannel
  deriving DecidableEq, Repr

inductive ConnectorEffect
  | runInLoop (f : ConnectorFunctor)
  | queueInLoop (f : ConnectorFunctor)

  /-- `RunAfter` of `StartInLoop`. -/
  | runAfter (delayMs : ℕ)

  | updateChannel (sockfd : ℕ)
  | removeChannel (sockfd : ℕ)
  | close (sockfd : ℕ)
  | newConnectionCallback (sockfd : ℕ)
  deriving DecidableEq, Repr

structure Connector where
  connect : Bool
  state : ConnectorState
  channel : Option Channel
  retryDelayMs : ℕ
  deriving DecidableEq, Repr

namespace Connector

def kmaxRetryDelayMs : ℕ := 30 * 1000

def kinitRetryDelayMs : ℕ := 500

def new : Connector :=
  { connect := false, state := .kdisconnected, channel := none, retryDelayMs := kinitRetryDelayMs }

def callbacks : Channel.Callbacks := ⟨false, true, false, true⟩

def setState (c : Connector) (state : ConnectorState) : Connector := { c with state := state }

def start (c : Connector) : Connector × List ConnectorEffect :=
  ({ c with connect := true }, [.runInLoop .startInLoop])

def stop (c : Connector) : Connector × List ConnectorEffect :=
  ({ c with connect := false }, [.queueInLoop .stopInLoop])

def retry (c : Connector) (sockfd : ℕ) : Connector × List ConnectorEffect :=
  let c := c.setState .kdisconnected
  if c.connect then
    ({ c with retryDelayMs := min (c.retryDelayMs * 2) kmaxRetryDelayMs },
      [.close sockfd, .runAfter c.retryDelayMs])
  else
    (c, [.close sockfd])

def connecting (c : Connector) (sockfd : ℕ) : Except Fault (Connector × List ConnectorEffect) := do
  let c := c.setState .kconnecting
  check (c.channel = none) (.assertion .connector_cc 113)
  return ({ c with channel := some (Channel.new sockfd).enableWriting }, [.updateChannel sockfd])

/-- `Connect`, with the new socket and what `connect` leaves in `errno`. -/
def connectTo (c : Connector) (sockfd : ℕ) :
    ConnectErrno → Except Fault (Connector × List ConnectorEffect)
  | .none | .einprogress | .eintr | .eisconn => c.connecting sockfd
  | .eagain | .eaddrinuse | .eaddrnotavail | .econnrefused | .enetunreach =>
    return c.retry sockfd
  | .eacces | .eperm | .eafnosupport | .ealready | .ebadf | .efault | .enotsock | .other _ =>
    return (c, [.close sockfd])

def startInLoop (c : Connector) (sockfd : ℕ) (errno : ConnectErrno) :
    Except Fault (Connector × List ConnectorEffect) := do
  check (c.state = .kdisconnected) (.assertion .connector_cc 42)
  if c.connect then c.connectTo sockfd errno else return (c, [])

def restart (c : Connector) (sockfd : ℕ) (errno : ConnectErrno) :
    Except Fault (Connector × List ConnectorEffect) :=
  { c.setState .kdisconnected with
    retryDelayMs := kinitRetryDelayMs, connect := true }.startInLoop sockfd errno

/-- The socket of the channel, which is kept until `ResetChannel` runs. -/
def removeAndResetChannel (c : Connector) :
    Except Fault (Connector × ℕ × List ConnectorEffect) :=
  match c.channel with
  | none => throw (.nullPointer .connector_cc 125)
  | some ch => do
    let ch ← ch.disableAll.remove
    return ({ c with channel := some ch }, ch.fd,
      [.removeChannel ch.fd, .queueInLoop .resetChannel])

/-- `ResetChannel`; the destructor of the channel asserts that it has been removed. -/
def resetChannel (c : Connector) : Except Fault Connector := do
  check (∀ ch, c.channel = some ch → ch.addedToLoop = false) (.assertion .channel_cc 35)
  return { c with channel := none }

def stopInLoop (c : Connector) : Except Fault (Connector × List ConnectorEffect) := do
  if c.state = .kconnecting then
    let c := c.setState .kdisconnected
    let (c, sockfd, fx) ← c.removeAndResetChannel
    let (c, gx) := c.retry sockfd
    return (c, fx ++ gx)
  else
    return (c, [])

/-- `HandleWrite`, with `SO_ERROR` and whether the socket is connected to itself. -/
def handleWrite (c : Connector) (err : ℕ) (selfConnect : Bool) :
    Except Fault (Connector × List ConnectorEffect) := do
  if c.state = .kconnecting then
    let (c, sockfd, fx) ← c.removeAndResetChannel
    if err ≠ 0 ∨ selfConnect = true then
      let (c, gx) := c.retry sockfd
      return (c, fx ++ gx)
    else
      let c := c.setState .kconnected
      return (c, fx ++ [if c.connect then .newConnectionCallback sockfd else .close sockfd])
  else
    check (c.state = .kdisconnected) (.assertion .connector_cc 157)
    return (c, [])

def handleError (c : Connector) : Except Fault (Connector × List ConnectorEffect) := do
  if c.state = .kconnecting then
    let (c, sockfd, fx) ← c.removeAndResetChannel
    let (c, gx) := c.retry sockfd
    return (c, fx ++ gx)
  else
    return (c, [])

theorem connectTo_eq (c : Connector) (sockfd : ℕ) (errno : ConnectErrno) :
    errno.inProgress = true ∧ c.connectTo sockfd errno = c.connecting sockfd ∨
      c.connectTo sockfd errno = .ok (c.retry sockfd) ∨
      c.connectTo sockfd errno = .ok (c, [.close sockfd]) := by
  cases errno <;> simp [connectTo, ConnectErrno.inProgress, pure, Except.pure]

theorem connecting_of_none {c : Connector} (h : c.channel = none) (sockfd : ℕ) :
    c.connecting sockfd = .ok ({ c with
      state := .kconnecting, channel := some (Channel.new sockfd).enableWriting },
        [.updateChannel sockfd]) := by
  unfold connecting
  exact check_bind_of_true (c := (c.setState .kconnecting).channel = none) h

/-- `Retry` closes the socket and, unless the connector has been stopped, sets a timer. -/
theorem retry_eq (c : Connector) (sockfd : ℕ) : ∃ c' : Connector,
    c'.state = .kdisconnected ∧ c'.channel = c.channel ∧
      (c.retry sockfd = (c', [.close sockfd]) ∨
        ∃ delay, c.retry sockfd = (c', [.close sockfd, .runAfter delay])) := by
  refine ⟨(c.retry sockfd).1, ?_⟩
  by_cases hc : c.connect = true
  · simp [retry, setState, hc]
  · simp [retry, setState, hc]

theorem removeAndResetChannel_eq {c : Connector} {ch : Channel} (hc : c.channel = some ch) :
    c.removeAndResetChannel =
      .ok ({ c with channel := some { ch.disableAll with addedToLoop := false } }, ch.fd,
        [.removeChannel ch.fd, .queueInLoop .resetChannel]) := by
  unfold removeAndResetChannel
  rw [hc]
  simp only [Channel.remove]
  rw [check_bind_of_true (Channel.isNoneEvent_disableAll ch)]
  rfl

theorem handleWrite_failed {c : Connector} {ch : Channel} {err : ℕ} {selfConnect : Bool}
    (hs : c.state = .kconnecting) (hch : c.channel = some ch)
    (herr : err ≠ 0 ∨ selfConnect = true) :
    c.handleWrite err selfConnect =
      .ok ((({ c with channel := some { ch.disableAll with addedToLoop := false } } :
          Connector).retry ch.fd).1,
        [.removeChannel ch.fd, .queueInLoop .resetChannel] ++
          (({ c with channel := some { ch.disableAll with addedToLoop := false } } :
            Connector).retry ch.fd).2) := by
  unfold handleWrite
  rw [if_pos hs, removeAndResetChannel_eq hch]
  exact if_pos herr

theorem handleWrite_connected {c : Connector} {ch : Channel} {err : ℕ} {selfConnect : Bool}
    (hs : c.state = .kconnecting) (hch : c.channel = some ch)
    (herr : ¬ (err ≠ 0 ∨ selfConnect = true)) :
    c.handleWrite err selfConnect =
      .ok ({ c with
        state := .kconnected, channel := some { ch.disableAll with addedToLoop := false } },
        [.removeChannel ch.fd, .queueInLoop .resetChannel,
          if c.connect then .newConnectionCallback ch.fd else .close ch.fd]) := by
  unfold handleWrite
  rw [if_pos hs, removeAndResetChannel_eq hch]
  exact if_neg herr

end Connector

end Dwater
