import Dwater.Net.TcpServer
import Dwater.Net.Client.Connector
import Dwater.Net.Reactor

/-! # A loop with everything that runs on it

One loop with its wakeup channel and its timers, a server, a client with its connector,
and connections, some of which belong to servers of other loops. The loop's thread calls
one callback, functor or expired timer at a time; what a method still has to do after a
callback waits on the stack of the thread, and before that the user's code may call
anything. Connections and sockets are told apart by numbers that are not used twice.
-/

set_option autoImplicit false
namespace Dwater

open Fallible

/-- The channels of a loop: its own, the acceptor's, the connector's and the connections'. -/
inductive LoopChannel
  | wakeup
  | timer
  | acceptor
  | connector (sockfd : ℕ)
  | connection (c : ℕ)
  deriving DecidableEq, Repr

inductive LoopTask
  | conn (t : Task)
  | connector (f : ConnectorFunctor)
  | setCloseCallback (c : ℕ)
  | listen
  | user
  deriving DecidableEq, Repr

/-- What the loop's thread is about to do. -/
inductive LoopFrame
  | channelCallback (ch : LoopChannel) (x : ChannelCallback)

  /-- An expired timer of `Retry`. -/
  | startInLoop

  | conn (f : Frame)
  deriving DecidableEq, Repr

/-- Whose `RemoveConnection` is the close callback of a connection: that of the server here, of a
server of another loop, of the client, or the one in `detail`. -/
inductive Owner
  | server
  | elsewhere
  | client
  | detail
  deriving DecidableEq, Repr

structure LoopConn where
  owner : Owner
  conn : TcpConnection
  deriving DecidableEq, Repr

/-- `connections` holds the keys of `connections_`, also of connections on other loops, and
`timers` counts the pending timers of `Retry`. -/
structure LoopWorld where
  alive : Bool
  loop : Reactor LoopChannel LoopTask
  stack : List LoopFrame
  conns : ℕ → Option LoopConn
  nextConn : ℕ
  nextSockfd : ℕ
  server : ServerPhase
  started : Bool
  connections : List ℕ
  clientAlive : Bool
  retry : Bool
  connect : Bool
  connection : Option ℕ
  connector : Connector
  connectorAlive : Bool
  timers : ℕ

/-- What a step finds outside: the answers of the kernel, whether the pool chooses this loop, and
how many timers of `Retry` have expired. -/
structure Answers where
  readv : ReadvResult
  write : WriteResult
  errno : ConnectErrno
  soError : ℕ
  selfConnect : Bool
  accepted : Bool
  here : Bool
  expired : ℕ
  deriving DecidableEq, Repr

/-- A user's call, by the loop's thread or another one, or a step of the loop's thread. -/
inductive WorldLabel
  | start (inLoopThread : Bool)
  | connect (inLoopThread : Bool) (errno : ConnectErrno)
  | stop
  | disconnect (inLoopThread : Bool)
  | enableRetry
  | send (inLoopThread : Bool) (c : ℕ) (message : List Byte) (w : WriteResult)
  | shutdown (inLoopThread : Bool) (c : ℕ)
  | forceClose (c : ℕ)
  | forceCloseWithDelay (c : ℕ)
  | startRead (inLoopThread : Bool) (c : ℕ)
  | stopRead (inLoopThread : Bool) (c : ℕ)
  | setCallbacks (c : ℕ) (writeComplete highWater : Bool) (highWaterMark : ℕ)
  | queueInLoop (f : LoopTask)

  /-- A server of another loop hands over a connection that it has accepted. -/
  | adopt

  /-- The last reference to a connection goes. -/
  | release (c : ℕ)

  /-- The last reference to the connector of a destroyed client goes. -/
  | releaseConnector

  | destroyServer
  | destroyClient (inLoopThread unique : Bool)
  | destroyLoop
  | poll (active : List LoopChannel)
  | handleEvent (revents : BitVec 32)
  | proceed (k : Answers)
  | handled
  | runFunctor (k : Answers)
  | ran
  deriving DecidableEq, Repr

def LoopChannel.callbacks : LoopChannel → Channel.Callbacks
  | wakeup | timer | acceptor => ⟨true, false, false, false⟩
  | connector _ => Connector.callbacks
  | connection _ => TcpConnection.callbacks

/-- Where a functor first uses its connector, to which it holds no reference. -/
def ConnectorFunctor.line : ConnectorFunctor → ℕ
  | startInLoop => 41
  | stopInLoop => 56
  | resetChannel => 133

/-- Where a functor that holds no reference first uses its connection. -/
def Functor.line : Functor → Option ℕ
  | .sendInLoop _ => some 110
  | .shutdownInLoop => some 160
  | .startReadInLoop => some 213
  | .stopReadInLoop => some 225
  | .forceCloseInLoop | .writeCompleteCallback | .highWaterMarkCallback _ => none

namespace LoopWorld

def new : LoopWorld :=
  { alive := true, loop := .new [.timer, .wakeup], stack := [], conns := fun _ => none
    nextConn := 0, nextSockfd := 0, server := .alive, started := false, connections := []
    clientAlive := true, retry := false, connect := true, connection := none
    connector := .new, connectorAlive := true, timers := 0 }

def updateChannel (s : LoopWorld) (ch : LoopChannel) : LoopWorld :=
  { s with loop := s.loop.updateChannel ch }

def removeChannel (s : LoopWorld) (ch : LoopChannel) : Except Fault LoopWorld := do
  let loop ← s.loop.removeChannel ch
  return { s with loop := loop }

def queueInLoop (s : LoopWorld) (f : LoopTask) : LoopWorld :=
  { s with loop := s.loop.queueInLoop f }

def push (s : LoopWorld) (frames : List LoopFrame) : LoopWorld :=
  { s with stack := frames ++ s.stack }

def withConn (s : LoopWorld) (c : ℕ) (f : LoopConn → Except Fault LoopWorld) :
    Except Fault LoopWorld :=
  match s.conns c with
  | some e => f e
  | none => return s

def setConn (s : LoopWorld) (c : ℕ) (e : LoopConn) : LoopWorld :=
  { s with conns := Function.update s.conns c (some e) }

/-- Keep the connection a method leaves, queue its functors and stack what has to wait. A channel
that the method changed has been handed to the poller. -/
def after (s : LoopWorld) (c : ℕ) (e : LoopConn) (r : TcpConnection × List Effect) :
    LoopWorld :=
  let s := s.setConn c { e with conn := r.1 }
  let s := if r.1.channel.addedToLoop then s.updateChannel (.connection c) else s
  let s := (r.2.filterMap (Effect.task c)).foldl (fun s t => s.queueInLoop (.conn t)) s
  s.push ((r.2.filterMap (Effect.frame c)).map .conn)

/-- A functor of a connection runs on the loop's thread. -/
def execute (s : LoopWorld) (c : ℕ) (e : LoopConn) (w : WriteResult) :
    Functor → Except Fault LoopWorld
  | .sendInLoop message => s.after c e <$> e.conn.sendInLoop message w
  | .shutdownInLoop => return s.after c e (e.conn, e.conn.shutdownInLoop)
  | .forceCloseInLoop => s.after c e <$> e.conn.forceCloseInLoop
  | .startReadInLoop => return s.after c e (e.conn.startReadInLoop, [])
  | .stopReadInLoop => return s.after c e (e.conn.stopReadInLoop, [])
  | .writeCompleteCallback | .highWaterMarkCallback _ => return s

/-- A method called by the loop's thread, which runs there and then what is passed to `RunInLoop`,
or by another one. -/
def call (s : LoopWorld) (inLoopThread : Bool) (c : ℕ) (e : LoopConn)
    (r : TcpConnection × List Effect) : Except Fault LoopWorld :=
  match r.2 with
  | [.runInLoop f] =>
    if inLoopThread then s.execute c { e with conn := r.1 } (.wrote 0) f
    else return s.after c e r
  | _ => return s.after c e r

/-- A functor is called, for a released connection too if it holds no reference. -/
def runConnFunctor (s : LoopWorld) (k : Answers) (c : ℕ) (f : Functor) :
    Except Fault LoopWorld :=
  match s.conns c, f.line with
  | some e, _ => s.execute c e k.write f
  | none, some line => throw (.useAfterFree .tcp_connection_cc line)
  | none, none => return s

def connectionEstablished (s : LoopWorld) (c : ℕ) : Except Fault LoopWorld :=
  s.withConn c fun e => s.after c e <$> e.conn.connectionEstablished

def connectionDestroyed (s : LoopWorld) (c : ℕ) : Except Fault LoopWorld :=
  s.withConn c fun e => return s.after c e e.conn.connectionDestroyed

def forceClose (s : LoopWorld) (c : ℕ) : Except Fault LoopWorld :=
  s.withConn c fun e => return s.after c e e.conn.forceClose

def setCloseCallback (s : LoopWorld) (c : ℕ) : Except Fault LoopWorld :=
  s.withConn c fun e => return s.setConn c { e with owner := .detail }

def replaceCloseCallback (s : LoopWorld) (inLoopThread : Bool) (c : ℕ) : Except Fault LoopWorld :=
  if inLoopThread then s.setCloseCallback c else return s.queueInLoop (.setCloseCallback c)

def newConn (s : LoopWorld) (owner : Owner) (sockfd : ℕ) : Except Fault LoopWorld := do
  let conn ← TcpConnection.new sockfd
  return { s with nextConn := s.nextConn + 1 }.setConn s.nextConn ⟨owner, conn⟩

/-- `NewConnection` of the server, for this loop or another one of its pool. -/
def newConnection (s : LoopWorld) (here : Bool) : Except Fault LoopWorld := do
  let c := s.nextConn
  let sockfd := s.nextSockfd
  let s := { s with connections := s.connections ++ [c], nextSockfd := sockfd + 1 }
  if here then
    let s ← s.newConn .server sockfd
    s.connectionEstablished c
  else
    return { s with nextConn := c + 1 }

/-- A server of another loop queues `ConnectionEstablished` of a new connection. -/
def adopt (s : LoopWorld) : Except Fault LoopWorld := do
  let c := s.nextConn
  let s ← { s with nextSockfd := s.nextSockfd + 1 }.newConn .elsewhere s.nextSockfd
  return s.queueInLoop (.conn (.connectionEstablished c))

def clientNewConnection (s : LoopWorld) (sockfd : ℕ) : Except Fault LoopWorld := do
  check (s.clientAlive = true) (.useAfterFree .tcp_client_cc 101)
  let c := s.nextConn
  let s ← s.newConn .client sockfd
  { s with connection := some c }.connectionEstablished c

def perform (s : LoopWorld) : ConnectorEffect → Except Fault LoopWorld
  | .runInLoop f | .queueInLoop f => return s.queueInLoop (.connector f)
  | .runAfter _ => return { s with timers := s.timers + 1 }
  | .updateChannel sockfd => return s.updateChannel (.connector sockfd)
  | .removeChannel sockfd => s.removeChannel (.connector sockfd)
  | .close _ => return s
  | .newConnectionCallback sockfd => s.clientNewConnection sockfd

/-- Keep the connector a method leaves and do what it asks for. -/
def afterConnector (s : LoopWorld) (r : Connector × List ConnectorEffect) :
    Except Fault LoopWorld :=
  run perform { s with connector := r.1 } r.2

def startInLoop (s : LoopWorld) (errno : ConnectErrno) : Except Fault LoopWorld := do
  let r ← s.connector.startInLoop s.nextSockfd errno
  afterConnector { s with nextSockfd := s.nextSockfd + 1 } r

def connectFrom (s : LoopWorld) (inLoopThread : Bool) (errno : ConnectErrno) :
    Except Fault LoopWorld :=
  let s := { s with connect := true }
  if inLoopThread then
    startInLoop { s with connector := s.connector.start.1 } errno
  else
    s.afterConnector s.connector.start

def removeConnectionInLoop (s : LoopWorld) (c : ℕ) : Except Fault LoopWorld := do
  check (s.server ≠ .dead) (.useAfterFree .tcp_server_cc 88)
  check (c ∈ s.connections) (.assertion .tcp_server_cc 93)
  let s := { s with connections := s.connections.erase c }
  s.withConn c fun _ => return s.queueInLoop (.conn (.connectionDestroyed c))

def clientRemoveConnection (s : LoopWorld) (c : ℕ) (errno : ConnectErrno) :
    Except Fault LoopWorld := do
  check (s.clientAlive = true) (.useAfterFree .tcp_client_cc 125)
  check (s.connection = some c) (.assertion .tcp_client_cc 130)
  let s := { s with connection := none }.queueInLoop (.conn (.connectionDestroyed c))
  if s.retry ∧ s.connect then
    let r ← s.connector.restart s.nextSockfd errno
    afterConnector { s with nextSockfd := s.nextSockfd + 1 } r
  else
    return s

def closeCallback (s : LoopWorld) (c : ℕ) (errno : ConnectErrno) : Except Fault LoopWorld :=
  s.withConn c fun e =>
    match e.owner with
    | .server => do
      check (s.server ≠ .dead) (.useAfterFree .tcp_server_cc 84)
      s.removeConnectionInLoop c
    | .elsewhere => return s
    | .client => s.clientRemoveConnection c errno
    | .detail => return s.queueInLoop (.conn (.connectionDestroyed c))

def listen (s : LoopWorld) : Except Fault LoopWorld := do
  check (s.server ≠ .dead) (.useAfterFree .acceptor_cc 40)
  return s.updateChannel .acceptor

def start (s : LoopWorld) (inLoopThread : Bool) : Except Fault LoopWorld :=
  if s.started then return s
  else if inLoopThread then listen { s with started := true }
  else return { s with started := true }.queueInLoop .listen

def channelCallback (s : LoopWorld) (k : Answers) :
    LoopChannel → ChannelCallback → Except Fault LoopWorld
  | .timer, .read =>
    let n := min k.expired s.timers
    return { s with timers := s.timers - n }.push (List.replicate n .startInLoop)
  | .acceptor, .read => if k.accepted then s.newConnection k.here else return s
  | .connector _, .write => do
    s.afterConnector (← s.connector.handleWrite k.soError k.selfConnect)
  | .connector _, .error => do s.afterConnector (← s.connector.handleError)
  | .connection c, x => s.withConn c fun e =>
    s.after c e <$> e.conn.channelCallback k.readv k.write x
  | _, _ => return s

def removeConn (s : LoopWorld) (c : ℕ) : Except Fault LoopWorld :=
  s.withConn c fun e => do
    let conn ← e.conn.removeChannel
    let s ← s.removeChannel (.connection c)
    return s.setConn c { e with conn := conn }

/-- `~TcpServer` goes on with its connections and ends with `~Acceptor`. -/
def destroying (s : LoopWorld) : List ℕ → Except Fault LoopWorld
  | [] => do
    let s ← (s.updateChannel .acceptor).removeChannel .acceptor
    return { s with server := .dead }
  | c :: rest => (s.push [.conn (.destroying rest)]).connectionDestroyed c

/-- The loop's thread goes on with what is on top of its stack. -/
def proceed (s : LoopWorld) (k : Answers) : Except Fault LoopWorld :=
  match s.stack with
  | [] => return s
  | f :: frames =>
    let s := { s with stack := frames }
    match f with
    | .channelCallback ch x => s.channelCallback k ch x
    | .startInLoop => s.startInLoop k.errno
    | .conn (.connectionCallback _ _) => return s
    | .conn (.closeCallback c) => s.closeCallback c k.errno
    | .conn (.removeChannel c) => s.removeConn c
    | .conn (.destroying rest) => s.destroying rest

def owned (s : LoopWorld) : LoopChannel → Bool
  | .connector sockfd => s.connector.channel.map Channel.fd = some sockfd
  | .connection c => (s.conns c).isSome
  | _ => true

def handleEvent (s : LoopWorld) (revents : BitVec 32) : Except Fault LoopWorld :=
  match s.loop.nextChannel with
  | some (ch, loop) => do
    check (s.owned ch = true) (.useAfterFree .event_loop_cc 106)
    return { s with loop := loop }.push
      ((Channel.handleEventWithGuard ch.callbacks revents).map (.channelCallback ch))
  | none => return s

def runTask (s : LoopWorld) (k : Answers) : LoopTask → Except Fault LoopWorld
  | .conn (.connectionEstablished c) => s.connectionEstablished c
  | .conn (.connectionDestroyed c) => s.connectionDestroyed c
  | .conn (.removeConnectionInLoop c) => s.removeConnectionInLoop c
  | .conn (.functor c f) => s.runConnFunctor k c f
  | .connector f => do
    check (s.connectorAlive = true) (.useAfterFree .connector_cc f.line)
    match f with
    | .startInLoop => s.startInLoop k.errno
    | .stopInLoop => s.afterConnector (← s.connector.stopInLoop)
    | .resetChannel => return { s with connector := ← s.connector.resetChannel }
  | .setCloseCallback c => s.setCloseCallback c
  | .listen => s.listen
  | .user => return s

def runFunctor (s : LoopWorld) (k : Answers) : Except Fault LoopWorld :=
  match s.loop.nextFunctor with
  | some (f, loop) => { s with loop := loop }.runTask k f
  | none => return s

/-- `~TcpClient`, which leaves its connector to a timer when it has no connection. -/
def destroyClient (s : LoopWorld) (inLoopThread unique : Bool) : Except Fault LoopWorld :=
  let s := { s with clientAlive := false }
  match s.connection with
  | some c => do
    let s ← s.replaceCloseCallback inLoopThread c
    if unique then s.forceClose c else return s
  | none => s.afterConnector s.connector.stop

/-- `~EventLoop` and the `~TimerQueue` of its member. -/
def destroyLoop (s : LoopWorld) : Except Fault LoopWorld := do
  let s ← s.removeChannel .wakeup
  let s ← s.removeChannel .timer
  return { s with alive := false }

def release (s : LoopWorld) (c : ℕ) : Except Fault LoopWorld :=
  s.withConn c fun e => do
    e.conn.destruct
    check (e.conn.channel.addedToLoop = false) (.assertion .channel_cc 35)
    return { s with conns := Function.update s.conns c none }

/-- `~Connector`. A timer of `Retry` holds a reference. -/
def releaseConnector (s : LoopWorld) : Except Fault LoopWorld := do
  if s.clientAlive = false ∧ s.timers = 0 ∧ .startInLoop ∉ s.stack then
    check (s.connector.channel = none) (.assertion .connector_cc 32)
    return { s with connectorAlive := false }
  else
    return s

def clientStep (s : LoopWorld) : WorldLabel → Except Fault LoopWorld
  | .connect inLoopThread errno => s.connectFrom inLoopThread errno
  | .stop => afterConnector { s with connect := false } s.connector.stop
  | .disconnect inLoopThread =>
    let s := { s with connect := false }
    match s.connection with
    | some c => s.withConn c fun e => s.call inLoopThread c e e.conn.shutdown
    | none => return s
  | .enableRetry => return { s with retry := true }
  | .destroyClient inLoopThread unique => s.destroyClient inLoopThread unique
  | _ => return s

def serverStep (s : LoopWorld) : WorldLabel → Except Fault LoopWorld
  | .start inLoopThread => s.start inLoopThread
  | .destroyServer =>
    return { s with server := .destroying }.push [.conn (.destroying s.connections)]
  | _ => return s

/-- The calls of a connection's methods, and what else other code does. -/
def userStep (s : LoopWorld) : WorldLabel → Except Fault LoopWorld
  | .send inLoopThread c message w => s.withConn c fun e => do
    s.call inLoopThread c e (← e.conn.send inLoopThread message w)
  | .shutdown inLoopThread c => s.withConn c fun e => s.call inLoopThread c e e.conn.shutdown
  | .forceClose c => s.forceClose c
  | .forceCloseWithDelay c => s.withConn c fun e =>
    return s.setConn c { e with conn := e.conn.forceClose.1 }
  | .startRead inLoopThread c => s.withConn c fun e =>
    s.call inLoopThread c e (e.conn, TcpConnection.startRead)
  | .stopRead inLoopThread c => s.withConn c fun e =>
    s.call inLoopThread c e (e.conn, TcpConnection.stopRead)
  | .setCallbacks c writeComplete highWater highWaterMark => s.withConn c fun e =>
    return s.setConn c { e with
      conn := { e.conn with
        writeCompleteCallback := writeComplete
        highWaterMarkCallback := highWater
        highWaterMark := highWaterMark } }
  | .queueInLoop f => return s.queueInLoop f
  | .adopt => s.adopt
  | .release c => s.release c
  | .releaseConnector => s.releaseConnector
  | .destroyLoop => s.destroyLoop
  | _ => return s

/-- The steps of `Loop()`, when nothing is left to do on the stack. -/
def loopStep (s : LoopWorld) : WorldLabel → Except Fault LoopWorld
  | .poll active => return { s with loop := s.loop.poll active }
  | .handleEvent revents => s.handleEvent revents
  | .handled => return { s with loop := s.loop.handled }
  | .runFunctor k => s.runFunctor k
  | .ran => return { s with loop := s.loop.ran }
  | _ => return s

def step (s : LoopWorld) (x : WorldLabel) : Except Fault LoopWorld :=
  if s.alive then
    match x with
    | .proceed k => s.proceed k
    | .connect .. | .stop | .disconnect _ | .enableRetry | .destroyClient .. =>
      if s.clientAlive then s.clientStep x else return s
    | .start _ | .destroyServer => if s.server = .alive then s.serverStep x else return s
    | .poll _ | .handleEvent _ | .handled | .runFunctor _ | .ran =>
      if s.stack = [] then s.loopStep x else return s
    | _ => s.userStep x
  else return s

end LoopWorld

end Dwater
