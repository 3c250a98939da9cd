import Mathlib.Logic.Function.Basic
import Dwater.Net.TcpConnection

/-! # The server and the loops of its connections

A server accepts connections on its base loop and hands each to a loop of the pool.
Every loop runs its functors in the order in which they were queued. The user's
callbacks may call back into the library, so what a method still has to do after a
callback waits on the stack of its thread.
-/

set_option autoImplicit false
namespace Dwater

open Fallible

variable {ι : Type}

/-- The functors that connections and their server queue. -/
inductive Task
  | connectionEstablished (c : ℕ)
  | connectionDestroyed (c : ℕ)
  | removeConnectionInLoop (c : ℕ)
  | functor (c : ℕ) (f : Functor)
  deriving DecidableEq, Repr

/-- What a thread is about to do: call back, remove a channel, or go on in `~TcpServer`. -/
inductive Frame
  | connectionCallback (c : ℕ) (connected : Bool)
  | closeCallback (c : ℕ)
  | removeChannel (c : ℕ)
  | destroying (rest : List ℕ)
  deriving DecidableEq, Repr

/-- What is recorded of a connection's life. -/
inductive LifeEvent
  | established
  | up
  | down
  | destroyed
  deriving DecidableEq, Repr

inductive ServerPhase
  | alive
  | destroying
  | dead
  deriving DecidableEq, Repr

structure Entry (ι : Type) where
  loop : ι
  conn : TcpConnection
  log : List LifeEvent

/-- `connections` holds the keys of `connections_`; connections are named by their number. -/
structure TcpServer (ι : Type) where
  base : ι
  phase : ServerPhase
  connections : List ℕ
  nextConnid : ℕ
  writeCompleteCallback : Bool
  entries : ℕ → Option (Entry ι)
  queue : ι → List Task
  stack : ι → List Frame

/-- A step of a loop's thread, an event on a socket, or a user's call by the thread of a loop
or by another one. -/
inductive ServerLabel (ι : Type)
  | newConnection (io : ι) (sockfd : ℕ)
  | proceed (i : ι)
  | runFunctor (i : ι) (w : WriteResult)
  | handleRead (c : ℕ) (r : ReadvResult)
  | handleWrite (c : ℕ) (w : WriteResult)
  | send (t : Option ι) (c : ℕ) (message : List Byte) (w : WriteResult)
  | shutdown (t : Option ι) (c : ℕ)
  | forceClose (t : Option ι) (c : ℕ)
  | destroy

/-- The part of an effect that has to wait for a callback to return, or is one. -/
def Effect.frame (c : ℕ) : Effect → Option Frame
  | .connectionCallback connected => some (.connectionCallback c connected)
  | .closeCallback => some (.closeCallback c)
  | .removeChannel => some (.removeChannel c)
  | _ => none

def Effect.task (c : ℕ) : Effect → Option Task
  | .runInLoop f | .queueInLoop f => some (.functor c f)
  | _ => none

namespace TcpServer

def new (base : ι) (writeCompleteCallback : Bool) : TcpServer ι :=
  { base := base, phase := .alive, connections := [], nextConnid := 1,
    writeCompleteCallback := writeCompleteCallback, entries := fun _ => none,
    queue := fun _ => [], stack := fun _ => [] }

variable [DecidableEq ι]

def setEntry (s : TcpServer ι) (c : ℕ) (e : Entry ι) : TcpServer ι :=
  { s with entries := Function.update s.entries c (some e) }

def enqueue (s : TcpServer ι) (i : ι) (tasks : List Task) : TcpServer ι :=
  { s with queue := Function.update s.queue i (s.queue i ++ tasks) }

def setStack (s : TcpServer ι) (i : ι) (frames : List Frame) : TcpServer ι :=
  { s with stack := Function.update s.stack i frames }

/-- Keep the connection a method leaves, queue its functors and stack what has to wait. -/
def after (s : TcpServer ι) (c : ℕ) (e : Entry ι) (r : TcpConnection × List Effect) :
    TcpServer ι :=
  let s := s.setEntry c { e with conn := r.1 }
  let s := s.enqueue e.loop (r.2.filterMap (Effect.task c))
  s.setStack e.loop (r.2.filterMap (Effect.frame c) ++ s.stack e.loop)

def record (s : TcpServer ι) (c : ℕ) (x : LifeEvent) : TcpServer ι :=
  match s.entries c with
  | some e => s.setEntry c { e with log := e.log ++ [x] }
  | none => s

def connectionEstablished (s : TcpServer ι) (c : ℕ) (e : Entry ι) :
    Except Fault (TcpServer ι) :=
  s.after c { e with log := e.log ++ [.established] } <$> e.conn.connectionEstablished

def connectionDestroyed (s : TcpServer ι) (c : ℕ) (e : Entry ι) : TcpServer ι :=
  s.after c e e.conn.connectionDestroyed

def execute (s : TcpServer ι) (c : ℕ) (e : Entry ι) (w : WriteResult) :
    Functor → Except Fault (TcpServer ι)
  | .sendInLoop message => s.after c e <$> e.conn.sendInLoop message w
  | .shutdownInLoop => return s.after c e (e.conn, e.conn.shutdownInLoop)
  | .forceCloseInLoop => s.after c e <$> e.conn.forceCloseInLoop
  | .startReadInLoop => return s.after c e (e.conn.startReadInLoop, [])
  | .stopReadInLoop => return s.after c e (e.conn.stopReadInLoop, [])
  | .writeCompleteCallback | .highWaterMarkCallback _ => return s

/-- A method called by thread `t`. What the loop's own thread passes to `RunInLoop` runs there
and then. -/
def call (s : TcpServer ι) (t : Option ι) (c : ℕ) (e : Entry ι)
    (r : TcpConnection × List Effect) : Except Fault (TcpServer ι) :=
  match r.2 with
  | [.runInLoop f] =>
    if t = some e.loop then s.execute c { e with conn := r.1 } (.wrote 0) f
    else return s.after c e r
  | _ => return s.after c e r

/-- A new connection goes into `connections_` under the next number. -/
def register (s : TcpServer ι) (e : Entry ι) : TcpServer ι :=
  { s with
    connections := s.connections ++ [s.nextConnid]
    nextConnid := s.nextConnid + 1 }.setEntry s.nextConnid e

def newConnection (s : TcpServer ι) (io : ι) (sockfd : ℕ) : Except Fault (TcpServer ι) := do
  let conn ← TcpConnection.new sockfd
  let e : Entry ι :=
    ⟨io, { conn with writeCompleteCallback := s.writeCompleteCallback }, []⟩
  if io = s.base then
    (s.register e).connectionEstablished s.nextConnid e
  else
    return (s.register e).enqueue io [.connectionEstablished s.nextConnid]

/-- `RemoveConenctionInLoop`; a functor bound to a server that is gone reads freed memory. -/
def removeConnectionInLoop (s : TcpServer ι) (c : ℕ) : Except Fault (TcpServer ι) := do
  check (s.phase ≠ .dead) (.useAfterFree .tcp_server_cc 88)
  check (c ∈ s.connections) (.assertion .tcp_server_cc 93)
  let s := { s with connections := s.connections.erase c }
  match s.entries c with
  | some e => return s.enqueue e.loop [.connectionDestroyed c]
  | none => return s

/-- The close callback of a connection, on the thread of loop `i`. -/
def removeConnection (s : TcpServer ι) (i : ι) (c : ℕ) : Except Fault (TcpServer ι) := do
  check (s.phase ≠ .dead) (.useAfterFree .tcp_server_cc 84)
  if i = s.base then
    s.removeConnectionInLoop c
  else
    return s.enqueue s.base [.removeConnectionInLoop c]

/-- The thread of loop `i` is inside the user's code, or may be. -/
def inUserCode (s : TcpServer ι) (i : ι) : Bool :=
  match s.stack i with
  | .connectionCallback _ _ :: _ | .destroying _ :: _ => false
  | _ => true

/-- `~TcpServer` up to its loop over the connections. Its members are destroyed behind that loop:
see `ServerProcess`. -/
def destroy (s : TcpServer ι) : TcpServer ι :=
  { s with phase := .destroying }.setStack s.base (.destroying s.connections :: s.stack s.base)

/-- The thread of loop `i` goes on with what is on top of its stack. -/
def proceed (s : TcpServer ι) (i : ι) : Except Fault (TcpServer ι) :=
  match s.stack i with
  | [] => return s
  | .connectionCallback c connected :: frames =>
    return (s.setStack i frames).record c (if connected then .up else .down)
  | .closeCallback c :: frames => (s.setStack i frames).removeConnection i c
  | .removeChannel c :: frames =>
    match s.entries c with
    | some e => do
      let conn ← e.conn.removeChannel
      return ((s.setStack i frames).setEntry c { e with conn := conn }).record c .destroyed
    | none => return s.setStack i frames
  -- the members are gone as well
  | .destroying [] :: frames => return { s with phase := .dead }.setStack i frames
  | .destroying (c :: rest) :: frames =>
    let s := s.setStack i (.destroying rest :: frames)
    match s.entries c with
    | some e =>
      if e.loop = s.base then return s.connectionDestroyed c e
      else return s.enqueue e.loop [.connectionDestroyed c]
    | none => return s

def runFunctor (s : TcpServer ι) (i : ι) (w : WriteResult) : Except Fault (TcpServer ι) :=
  match s.queue i with
  | [] => return s
  | task :: tasks =>
    let s := { s with queue := Function.update s.queue i tasks }
    match task with
    | .connectionEstablished c =>
      match s.entries c with
      | some e => s.connectionEstablished c e
      | none => return s
    | .connectionDestroyed c =>
      match s.entries c with
      | some e => return s.connectionDestroyed c e
      | none => return s
    | .removeConnectionInLoop c => s.removeConnectionInLoop c
    | .functor c f =>
      match s.entries c with
      | some e => s.execute c e w f
      | none => return s

/-- The steps a connection takes part in on its own. -/
def connStep (s : TcpServer ι) (c : ℕ) (e : Entry ι) :
    ServerLabel ι → Except Fault (TcpServer ι)
  | .handleRead _ r =>
    if s.stack e.loop = [] ∧ e.conn.channel.isReading = true then
      s.after c e <$> e.conn.handleRead r
    else return s
  | .handleWrite _ w =>
    if s.stack e.loop = [] ∧ e.conn.channel.isWriting = true then
      s.after c e <$> e.conn.handleWrite w
    else return s
  | .send t _ message w => do
    let r ← e.conn.send (t = some e.loop) message w
    s.call t c e r
  | .shutdown t _ => s.call t c e e.conn.shutdown
  | .forceClose t _ => s.call t c e e.conn.forceClose
  | _ => return s

def step (s : TcpServer ι) (x : ServerLabel ι) : Except Fault (TcpServer ι) :=
  match x with
  | .newConnection io sockfd =>
    if s.phase = .alive ∧ s.stack s.base = [] then s.newConnection io sockfd else return s
  | .proceed i => s.proceed i
  | .runFunctor i w => if s.stack i = [] then s.runFunctor i w else return s
  | .destroy =>
    if s.phase = .alive ∧ s.inUserCode s.base = true then return s.destroy else return s
  | .handleRead c _ | .handleWrite c _ | .send _ c _ _ | .shutdown _ c | .forceClose _ c =>
    match s.entries c with
    | some e => s.connStep c e x
    | none => return s

end TcpServer

end Dwater
