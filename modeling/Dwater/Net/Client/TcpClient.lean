import Dwater.Net.Client.Connector
import Dwater.Net.Reactor

/-! # A client on its loop

A client drives its connector from `Connect`, `Stop` and the close callback of its
connection. The steps are those of the loop's thread, one handler, functor or timer at a
time, and the calls that users make from it or from other threads. Sockets are told
apart by numbers that are not used twice.
-/

set_option autoImplicit false
namespace Dwater

open Fallible

/-- The channels of a client: the connector's and its connections'. -/
inductive ClientChannel
  | connector (sockfd : ℕ)
  | connection (sockfd : ℕ)
  deriving DecidableEq, Repr

inductive ClientTask
  | connector (f : ConnectorFunctor)
  | forceCloseInLoop (sockfd : ℕ)
  | connectionDestroyed (sockfd : ℕ)
  deriving DecidableEq, Repr

/-- A connection of the client, which is open until its `HandleClose`. -/
structure ClientConnection where
  sockfd : ℕ
  isOpen : Bool
  deriving DecidableEq, Repr

/-- `timers` counts the pending timers of `Retry`, `connecting` lists the sockets whose connection
is in progress, and `closeCallback` is the connection whose close callback comes next. -/
structure TcpClient where
  retry : Bool
  connect : Bool
  connector : Connector
  connection : Option ClientConnection
  loop : Reactor ClientChannel ClientTask
  timers : ℕ
  connecting : List ℕ
  closeCallback : Option ℕ
  nextSockfd : ℕ
  deriving DecidableEq, Repr

/-- A step of the loop's thread, with the answers of the kernel, or a user's call. -/
inductive ClientLabel
  | connect (inLoopThread : Bool) (errno : ConnectErrno)
  | stop
  | disconnect
  | enableRetry
  | forceClose
  | poll (active : List ClientChannel)
  | handleEvent (revents : BitVec 32) (err : ℕ) (selfConnect closed : Bool)
  | expire (errno : ConnectErrno)
  | handled
  | runFunctor (errno : ConnectErrno)
  | ran
  | closeCallback (errno : ConnectErrno)
  deriving DecidableEq, Repr

namespace TcpClient

def new : TcpClient :=
  { retry := false, connect := true, connector := .new, connection := none, loop := .new [],
    timers := 0, connecting := [], closeCallback := none, nextSockfd := 0 }

def newConnection (s : TcpClient) (sockfd : ℕ) : TcpClient :=
  { s with
    connection := some ⟨sockfd, true⟩
    connecting := s.connecting.erase sockfd
    loop := s.loop.updateChannel (.connection sockfd) }

def perform (s : TcpClient) : ConnectorEffect → Except Fault TcpClient
  | .runInLoop f | .queueInLoop f => return { s with loop := s.loop.queueInLoop (.connector f) }
  | .runAfter _ => return { s with timers := s.timers + 1 }
  | .updateChannel sockfd =>
    return { s with
      loop := s.loop.updateChannel (.connector sockfd), connecting := s.connecting ++ [sockfd] }
  | .removeChannel sockfd => do
    let loop ← s.loop.removeChannel (.connector sockfd)
    return { s with loop := loop }
  | .close sockfd => return { s with connecting := s.connecting.erase sockfd }
  | .newConnectionCallback sockfd => return s.newConnection sockfd

def after (s : TcpClient) (r : Connector × List ConnectorEffect) : Except Fault TcpClient :=
  run perform { s with connector := r.1 } r.2

def startInLoop (s : TcpClient) (errno : ConnectErrno) : Except Fault TcpClient := do
  let r ← s.connector.startInLoop s.nextSockfd errno
  after { s with nextSockfd := s.nextSockfd + 1 } r

def connectFrom (s : TcpClient) (inLoopThread : Bool) (errno : ConnectErrno) :
    Except Fault TcpClient :=
  let s := { s with connect := true }
  if inLoopThread then
    startInLoop { s with connector := s.connector.start.1 } errno
  else
    s.after s.connector.start

def stop (s : TcpClient) : Except Fault TcpClient :=
  after { s with connect := false } s.connector.stop

def forceClose (s : TcpClient) : TcpClient :=
  match s.connection with
  | some ⟨sockfd, true⟩ => { s with loop := s.loop.queueInLoop (.forceCloseInLoop sockfd) }
  | _ => s

/-- `HandleClose` of the connection, up to its close callback. -/
def handleClose (s : TcpClient) (sockfd : ℕ) : TcpClient :=
  if s.connection = some ⟨sockfd, true⟩ then
    { s with connection := some ⟨sockfd, false⟩, closeCallback := some sockfd }
  else s

def removeConnection (s : TcpClient) (sockfd : ℕ) (errno : ConnectErrno) :
    Except Fault TcpClient := do
  check (s.connection.map ClientConnection.sockfd = some sockfd) (.assertion .tcp_client_cc 130)
  let s := { s with
    connection := none, closeCallback := none
    loop := s.loop.queueInLoop (.connectionDestroyed sockfd) }
  if s.retry ∧ s.connect then
    let r ← s.connector.restart s.nextSockfd errno
    after { s with nextSockfd := s.nextSockfd + 1 } r
  else
    return s

def channelCallback (err : ℕ) (selfConnect : Bool) (s : TcpClient) (x : ChannelCallback) :
    Except Fault TcpClient := do
  match x with
  | .write => s.after (← s.connector.handleWrite err selfConnect)
  | .error => s.after (← s.connector.handleError)
  | .read | .close => return s

def handleEvent (s : TcpClient) (revents : BitVec 32) (err : ℕ) (selfConnect closed : Bool) :
    Except Fault TcpClient :=
  match s.loop.nextChannel with
  | some (.connector sockfd, loop) => do
    check (s.connector.channel.map Channel.fd = some sockfd) (.useAfterFree .event_loop_cc 106)
    run (channelCallback err selfConnect) { s with loop := loop }
      (Channel.handleEventWithGuard Connector.callbacks revents)
  | some (.connection sockfd, loop) =>
    return if closed then handleClose { s with loop := loop } sockfd else { s with loop := loop }
  | none => return s

def runFunctor (s : TcpClient) (errno : ConnectErrno) : Except Fault TcpClient :=
  match s.loop.nextFunctor with
  | some (f, loop) =>
    let s := { s with loop := loop }
    match f with
    | .connector .startInLoop => s.startInLoop errno
    | .connector .stopInLoop => do s.after (← s.connector.stopInLoop)
    | .connector .resetChannel => do
      let connector ← s.connector.resetChannel
      return { s with connector := connector }
    | .forceCloseInLoop sockfd => return s.handleClose sockfd
    | .connectionDestroyed sockfd => do
      let loop ← s.loop.removeChannel (.connection sockfd)
      return { s with loop := loop }
  | none => return s

/-- A step of the loop's thread when no callback has to be made first. -/
def loopStep (s : TcpClient) : ClientLabel → Except Fault TcpClient
  | .poll active => return { s with loop := s.loop.poll active }
  | .handleEvent revents err selfConnect closed => s.handleEvent revents err selfConnect closed
  | .expire errno =>
    if s.loop.phase = .handling ∧ 0 < s.timers then
      startInLoop { s with timers := s.timers - 1 } errno
    else return s
  | .handled => return { s with loop := s.loop.handled }
  | .runFunctor errno => s.runFunctor errno
  | .ran => return { s with loop := s.loop.ran }
  | _ => return s

def step (s : TcpClient) (x : ClientLabel) : Except Fault TcpClient :=
  match x with
  | .connect inLoopThread errno => s.connectFrom inLoopThread errno
  | .stop => s.stop
  | .disconnect => return { s with connect := false }
  | .enableRetry => return { s with retry := true }
  | .forceClose => return s.forceClose
  | .closeCallback errno =>
    match s.closeCallback with
    | some sockfd => s.removeConnection sockfd errno
    | none => return s
  | .poll _ | .handleEvent .. | .expire _ | .handled | .runFunctor _ | .ran =>
    match s.closeCallback with
    | some _ => return s
    | none => s.loopStep x

end TcpClient

end Dwater
