import Dwater.Net.TcpServer

/-! # The threads of a server and the end of its members

The base loop and each loop of the pool have a thread, which goes round `Loop()` between
events and functors. `~TcpServer` ends with its members. With the last pointer to the pool
every loop of the pool is told to quit and its thread is joined: what is still queued on a
loop when it leaves `Loop()` never runs. Then the acceptor's channel is removed.
-/

set_option autoImplicit false
namespace Dwater

open Fallible

variable {κ : Type}

/-- The channels that a loop of the server may find active. -/
inductive ServerChannel
  | acceptor
  | connection (c : ℕ)
  | other (k : ℕ)
  deriving DecidableEq, Repr

inductive LoopPosition

  /-- Not inside `Loop()`. -/
  | outside

  /-- About to test `quit_`. -/
  | test

  | polling

  /-- In the loop over the active channels. -/
  | handling

  /-- In `DoPendingFunctors`. -/
  | running

  /-- Past `Loop()` for good: the loop is destroyed. -/
  | stopped
  deriving DecidableEq, Repr

/-- The moves of a loop's thread between events and functors. -/
inductive ThreadAction
  | loop
  | testQuit
  | pollReturn (active : List ServerChannel)
  | handleNext
  | swap
  | ran
  deriving DecidableEq, Repr

/-- The thread of a loop. `batch` counts the functors it has still to run of those it swapped. -/
structure ThreadState where
  phase : LoopPosition
  quit : Bool
  activeChannels : List ServerChannel
  unhandled : List ServerChannel
  currActiveChannel : Option ServerChannel
  batch : ℕ
  deriving DecidableEq, Repr

namespace ThreadState

def new : ThreadState := ⟨.outside, false, [], [], none, 0⟩

/-- The assertion of `RemoveChannel`. -/
def Removable (t : ThreadState) (ch : ServerChannel) : Prop :=
  t.phase = .handling → t.currActiveChannel = some ch ∨ ch ∉ t.activeChannels

instance (t : ThreadState) (ch : ServerChannel) : Decidable (t.Removable ch) :=
  inferInstanceAs (Decidable (_ → _))

/-- The user's code runs on the thread, or may. -/
def runsUserCode (t : ThreadState) : Bool :=
  t.phase = .outside || t.phase = .handling || t.phase = .running

/-- A move that finds `pending` functors queued. -/
def advance (t : ThreadState) (pending : ℕ) : ThreadAction → ThreadState
  | .loop => if t.phase = .outside then { t with quit := false, phase := .test } else t
  | .testQuit =>
    if t.phase = .test then { t with phase := if t.quit then .outside else .polling } else t
  | .pollReturn active =>
    if t.phase = .polling then
      { t with activeChannels := active, unhandled := active, phase := .handling }
    else t
  | .handleNext =>
    match t.phase, t.unhandled with
    | .handling, ch :: rest => { t with currActiveChannel := some ch, unhandled := rest }
    | _, _ => t
  | .swap =>
    if t.phase = .handling ∧ t.unhandled = [] then
      { t with currActiveChannel := none, batch := pending, phase := .running }
    else t
  | .ran => if t.phase = .running ∧ t.batch = 0 then { t with phase := .test } else t

end ThreadState

/-- The members of a server whose destructors do something. -/
inductive ServerMember
  | threadPool
  | acceptor
  deriving DecidableEq, Repr

/-- What `~EventLoopThread` does to the thread of loop `k`. -/
inductive Farewell (κ : Type)
  | quit (k : κ)
  | join (k : κ)
  deriving DecidableEq, Repr

/-- A server with the threads of its loops: `none` is the base loop, `some k` one of the pool.
`members` holds what `~TcpServer` has yet to destroy, `farewells` what the destructor of the
pool has yet to do, and `poolShared` says that a user holds what `ThreadPool()` returned. -/
structure ServerProcess (κ : Type) where
  pool : List κ
  server : TcpServer (Option κ)
  threads : Option κ → ThreadState
  members : List ServerMember
  farewells : List (Farewell κ)
  poolShared : Bool

/-- A step of the server, a move of a thread, or what a user does to the base loop and the pool:
`destroyPool` goes on in the destructor of a pool that the user was the last to hold. -/
inductive ProcessLabel (κ : Type)
  | server (x : ServerLabel (Option κ))
  | thread (i : Option κ) (a : ThreadAction)
  | quit
  | destroyLoop
  | threadPool
  | dropPool
  | destroyPool

namespace ServerProcess

def new (pool : List κ) (writeCompleteCallback : Bool) : ServerProcess κ :=
  { pool := pool, server := .new none writeCompleteCallback, threads := fun _ => .new,
    members := [.threadPool, .acceptor],
    farewells := pool.flatMap fun k => [.quit k, .join k], poolShared := false }

variable [DecidableEq κ]

def setThread (p : ServerProcess κ) (i : Option κ) (t : ThreadState) : ServerProcess κ :=
  { p with threads := Function.update p.threads i t }

def serve (p : ServerProcess κ) (x : ServerLabel (Option κ)) : Except Fault (ServerProcess κ) := do
  let server ← p.server.step x
  return { p with server := server }

/-- `~EventLoopThreadPool`: each thread in turn is told to quit and joined. -/
def destroyPool (p : ServerProcess κ) : ServerProcess κ :=
  match p.farewells with
  | [] => p
  | .quit k :: rest =>
    { p with farewells := rest }.setThread (some k) { p.threads (some k) with quit := true }
  | .join k :: rest =>
    if (p.threads (some k)).phase = .stopped then { p with farewells := rest } else p

/-- `~TcpServer` goes on with member `m`, the first of those that are left. -/
def destroyMember (p : ServerProcess κ) (m : ServerMember) (rest : List ServerMember) :
    Except Fault (ServerProcess κ) :=
  match m with
  | .threadPool =>
    if p.poolShared = true ∨ p.farewells = [] then return { p with members := rest }
    else return p.destroyPool
  | .acceptor => do
    check ((p.threads none).Removable .acceptor) (.assertion .event_loop_cc 178)
    -- `~Channel` after that: the acceptor's own event must be over
    check ((p.threads none).phase = .handling →
      (p.threads none).currActiveChannel ≠ some .acceptor) (.assertion .channel_cc 34)
    return { p with members := rest }

/-- The thread of loop `i` goes on with what is on top of its stack. -/
def proceed (p : ServerProcess κ) (i : Option κ) : Except Fault (ServerProcess κ) :=
  match p.server.stack i, p.members with
  | .destroying [] :: _, m :: rest => p.destroyMember m rest
  | .removeChannel c :: _, _ => do
    check ((p.threads i).Removable (.connection c)) (.assertion .event_loop_cc 178)
    p.serve (.proceed i)
  | _, _ => p.serve (.proceed i)

/-- The thread of loop `i` takes the next functor of those it swapped. -/
def runFunctor (p : ServerProcess κ) (i : Option κ) (w : WriteResult) :
    Except Fault (ServerProcess κ) :=
  let t := p.threads i
  if t.phase = .running ∧ t.batch ≠ 0 ∧ p.server.stack i = [] then
    (p.setThread i { t with batch := t.batch - 1 }).serve (.runFunctor i w)
  else return p

/-- The thread of its loop is handling an event of connection `c`. -/
def handles (p : ServerProcess κ) (c : ℕ) : Bool :=
  match p.server.entries c with
  | some e =>
    (p.threads e.loop).phase = .handling &&
      (p.threads e.loop).currActiveChannel = some (.connection c)
  | none => false

def mayCall (p : ServerProcess κ) : Option (Option κ) → Bool
  | some i => (p.threads i).runsUserCode && p.server.inUserCode i
  | none => true

/-- A method that reads `loop_` of connection `c` in these states would find it destroyed. -/
def loopGone (p : ServerProcess κ) (c : ℕ) (states : List StateE) : Bool :=
  match p.server.entries c with
  | some e => e.conn.state ∈ states && (p.threads e.loop).phase = .stopped
  | none => false

/-- A method called by thread `t`, which on this line uses the loop of the connection. -/
def call (p : ServerProcess κ) (t : Option (Option κ)) (c line : ℕ) (states : List StateE)
    (x : ServerLabel (Option κ)) : Except Fault (ServerProcess κ) :=
  if p.mayCall t then do
    check (p.loopGone c states = false) (.useAfterFree .tcp_connection_cc line)
    p.serve x
  else return p

/-- The pool deals the base loop if it has no other. -/
def deals (p : ServerProcess κ) : Option κ → Bool
  | some k => k ∈ p.pool
  | none => p.pool.isEmpty

def registered (p : ServerProcess κ) (i : Option κ) : ServerChannel → Bool
  | .acceptor => i = none && .acceptor ∈ p.members
  | .connection c =>
    match p.server.entries c with
    | some e => e.loop = i && e.conn.channel.addedToLoop
    | none => false
  | .other _ => true

/-- A loop is destroyed with all that is queued on it. -/
def destroyLoop (p : ServerProcess κ) (i : Option κ) : ServerProcess κ :=
  { p with server := { p.server with queue := Function.update p.server.queue i [] } }.setThread i
    { p.threads i with phase := .stopped }

/-- The thread of loop `i` moves on, unless it is inside a method. A loop of the pool does not
outlive its `Loop()`. -/
def advance (p : ServerProcess κ) (i : Option κ) (a : ThreadAction) : ServerProcess κ :=
  let t := p.threads i
  let moved := p.setThread i (t.advance (p.server.queue i).length a)
  if p.server.stack i = [] then
    match i, a with
    | some _, .testQuit => if t.phase = .test ∧ t.quit = true then p.destroyLoop i else moved
    | _, .pollReturn active => if active.all (p.registered i) then moved else p
    | _, _ => moved
  else p

/-- A step of the server by the thread that may take it. -/
def serverStep (p : ServerProcess κ) (x : ServerLabel (Option κ)) :
    Except Fault (ServerProcess κ) :=
  match x with
  | .newConnection io _ =>
    let t := p.threads none
    if t.phase = .handling ∧ t.currActiveChannel = some .acceptor ∧ p.deals io = true then p.serve x
    else return p
  | .proceed i => p.proceed i
  | .runFunctor i w => p.runFunctor i w
  | .handleRead c _ | .handleWrite c _ => if p.handles c then p.serve x else return p
  | .send t c _ _ => p.call t c 79 [.kconnected] x
  | .shutdown t c => p.call t c 155 [.kconnected] x
  | .forceClose t c => p.call t c 169 [.kconnected, .kdisconnecting] x
  | .destroy => if (p.threads none).runsUserCode then p.serve x else return p

def step (p : ServerProcess κ) : ProcessLabel κ → Except Fault (ServerProcess κ)
  | .server x => p.serverStep x
  | .thread i a => return p.advance i a
  | .quit => return p.setThread none { p.threads none with quit := true }
  | .destroyLoop =>
    return if p.members = [] ∧ p.server.stack none = [] ∧ (p.threads none).phase = .outside then
      p.destroyLoop none
    else p
  | .threadPool => return if p.server.phase = .alive then { p with poolShared := true } else p
  | .dropPool => return { p with poolShared := false }
  | .destroyPool =>
    return if p.poolShared = false ∧ .threadPool ∉ p.members then p.destroyPool else p

end ServerProcess

end Dwater
