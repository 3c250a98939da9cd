import Dwater.Net.ByteQueue
import Dwater.Net.Channel

/-! # TCP connections

The methods of a connection as functions of its members. What a method does outside
the object is its list of effects, in order: bytes the kernel took, the half close of
the socket, functors for the loop and calls of the user's callbacks. The result of a
system call is an argument.
-/

set_option autoImplicit false
namespace Dwater

open Fallible

inductive Errno
  | ewouldblock
  | epipe
  | econnreset
  | other (code : ℕ)
  deriving DecidableEq, Repr

/-- What `socket::Write` reports: the number of bytes taken, or a failure. The output of a log
line may set `errno` again: `logged` is what it holds once `LOG_SYSERR` has run. -/
inductive WriteResult
  | wrote (n : ℕ)
  | error (errno logged : Errno)
  deriving DecidableEq, Repr

namespace WriteResult

def count : WriteResult → ℕ
  | wrote n => n
  | error _ _ => 0

/-- The failures after which `SendInLoop` gives the data up. -/
def faultError : WriteResult → Bool
  | wrote _ => false
  -- the second test is made behind the log line, on whatever `errno` is by then
  | error errno logged => errno ≠ .ewouldblock && (logged = .epipe || logged = .econnreset)

/-- The kernel takes no more than it was given. -/
def Within (len : ℕ) (w : WriteResult) : Prop := w.count ≤ len

/-- `Write` itself reports no broken connection. -/
def Retryable (len : ℕ) (w : WriteResult) : Prop :=
  w.Within len ∧ ∀ errno logged, w = error errno logged → errno ≠ .epipe ∧ errno ≠ .econnreset

/-- `SendInLoop` does not give the data up. -/
def Soft (len : ℕ) (w : WriteResult) : Prop := w.Within len ∧ w.faultError = false

theorem faultError_iff {w : WriteResult} :
    w.faultError = true ↔ ∃ errno logged, w = error errno logged ∧ errno ≠ .ewouldblock ∧
      (logged = .epipe ∨ logged = .econnreset) := by
  cases w <;> simp [faultError]

theorem count_of_faultError {w : WriteResult} (h : w.faultError = true) : w.count = 0 := by
  obtain ⟨errno, logged, rfl, -⟩ := faultError_iff.mp h
  rfl

end WriteResult

inductive StateE
  | kdisconnected
  | kconnecting
  | kconnected
  | kdisconnecting
  deriving DecidableEq, Repr

/-- The functors that a connection binds for its loop. -/
inductive Functor
  | sendInLoop (message : List Byte)
  | shutdownInLoop
  | forceCloseInLoop
  | startReadInLoop
  | stopReadInLoop
  | writeCompleteCallback
  | highWaterMarkCallback (len : ℕ)
  deriving DecidableEq, Repr

inductive Effect
  | write (data : List Byte)
  | shutdownWrite
  | runInLoop (f : Functor)
  | queueInLoop (f : Functor)
  | connectionCallback (connected : Bool)
  | messageCallback
  | closeCallback
  | removeChannel
  deriving DecidableEq, Repr

def written (fx : List Effect) : List Byte :=
  fx.flatMap fun
    | .write data => data
    | _ => []

@[simp] theorem written_nil : written [] = [] := rfl

@[simp] theorem written_cons_write (data : List Byte) (fx : List Effect) :
    written (.write data :: fx) = data ++ written fx := by simp [written]

@[simp] theorem written_append (fx gx : List Effect) :
    written (fx ++ gx) = written fx ++ written gx := by simp [written]

structure TcpConnection where
  state : StateE
  reading : Bool
  channel : Channel
  writeCompleteCallback : Bool
  highWaterMarkCallback : Bool
  highWaterMark : ℕ
  inputBuffer : Buffer
  outputBuffer : Buffer
  deriving DecidableEq, Repr

namespace TcpConnection

def new (sockfd : ℕ) : Except Fault TcpConnection := do
  let inputBuffer ← Buffer.new Buffer.kinitialSize
  let outputBuffer ← Buffer.new Buffer.kinitialSize
  return {
    state := .kconnecting
    reading := true
    channel := .new sockfd
    writeCompleteCallback := false
    highWaterMarkCallback := false
    highWaterMark := 64 * 1024 * 1024
    inputBuffer := inputBuffer
    outputBuffer := outputBuffer }

def connected (c : TcpConnection) : Bool := c.state = .kconnected

def setState (c : TcpConnection) (state : StateE) : TcpConnection := { c with state := state }

/-- Nothing is waiting in the output buffer, so `SendInLoop` may write at once. -/
def writesDirectly (c : TcpConnection) : Bool :=
  !c.channel.isWriting && c.outputBuffer.readableBytes = 0

def queueWriteComplete (c : TcpConnection) : List Effect :=
  if c.writeCompleteCallback then [.queueInLoop .writeCompleteCallback] else []

/-- The functor for the high-water-mark callback, if the backlog now reaches the mark. -/
def queueHighWaterMark (c : TcpConnection) (remaining : ℕ) : List Effect :=
  let oldLen := c.outputBuffer.readableBytes
  if oldLen + remaining ≥ c.highWaterMark ∧ oldLen < c.highWaterMark ∧
      c.highWaterMarkCallback = true then
    [.queueInLoop (.highWaterMarkCallback (oldLen + remaining))]
  else
    []

def directWrite (c : TcpConnection) (data : List Byte) (w : WriteResult) : List Effect :=
  .write (data.take w.count) ::
    match w with
    | .wrote n => if data.length - n = 0 then c.queueWriteComplete else []
    | .error _ _ => []

/-- Put what could not be written into the output buffer and wait for writability. -/
def sendRest (c : TcpConnection) (rest : List Byte) : Except Fault TcpConnection := do
  let outputBuffer ← c.outputBuffer.append rest
  let channel := if c.channel.isWriting then c.channel else c.channel.enableWriting
  return { c with outputBuffer := outputBuffer, channel := channel }

def sendInLoop (c : TcpConnection) (data : List Byte) (w : WriteResult) :
    Except Fault (TcpConnection × List Effect) := do
  if c.state = .kdisconnected then
    return (c, [])
  else
    let nWrote := if c.writesDirectly then w.count else 0
    let faultError := c.writesDirectly && w.faultError
    let remaining := data.length - nWrote
    let direct := if c.writesDirectly then c.directWrite data w else []
    check (remaining ≤ data.length) (.assertion .tcp_connection_cc 136)
    if faultError = false ∧ remaining > 0 then
      let c' ← c.sendRest (data.drop nWrote)
      return (c', direct ++ c.queueHighWaterMark remaining)
    else
      return (c, direct)

def send (c : TcpConnection) (inLoopThread : Bool) (message : List Byte) (w : WriteResult) :
    Except Fault (TcpConnection × List Effect) :=
  if c.state = .kconnected then
    if inLoopThread then c.sendInLoop message w
    else return (c, [.runInLoop (.sendInLoop message)])
  else
    return (c, [])

def shutdownInLoop (c : TcpConnection) : List Effect :=
  if c.channel.isWriting then [] else [.shutdownWrite]

def shutdown (c : TcpConnection) : TcpConnection × List Effect :=
  if c.state = .kconnected then
    (c.setState .kdisconnecting, [.runInLoop .shutdownInLoop])
  else
    (c, [])

def forceClose (c : TcpConnection) : TcpConnection × List Effect :=
  if c.state = .kconnected ∨ c.state = .kdisconnecting then
    (c.setState .kdisconnecting, [.queueInLoop .forceCloseInLoop])
  else
    (c, [])

def startRead : List Effect := [.runInLoop .startReadInLoop]

def startReadInLoop (c : TcpConnection) : TcpConnection :=
  if c.reading = false ∨ c.channel.isReading = false then
    { c with channel := c.channel.enableReading, reading := true }
  else
    c

def stopRead : List Effect := [.runInLoop .stopReadInLoop]

def stopReadInLoop (c : TcpConnection) : TcpConnection :=
  if c.reading = true ∨ c.channel.isReading = true then
    { c with channel := c.channel.disableReading, reading := false }
  else
    c

def connectionEstablished (c : TcpConnection) : Except Fault (TcpConnection × List Effect) := do
  check (c.state = .kconnecting) (.assertion .tcp_connection_cc 234)
  let c := c.setState .kconnected
  let c := { c with channel := c.channel.tie.enableReading }
  return (c, [.connectionCallback c.connected])

def connectionDestroyed (c : TcpConnection) : TcpConnection × List Effect :=
  if c.state = .kconnected then
    let c := c.setState .kdisconnected
    let c := { c with channel := c.channel.disableAll }
    (c, [.connectionCallback c.connected, .removeChannel])
  else
    (c, [.removeChannel])

/-- The end of `ConnectionDestroyed`, after the user's callback has returned. -/
def removeChannel (c : TcpConnection) : Except Fault TcpConnection := do
  let channel ← c.channel.remove
  return { c with channel := channel }

def handleClose (c : TcpConnection) : Except Fault (TcpConnection × List Effect) := do
  check (c.state = .kconnected ∨ c.state = .kdisconnecting) (.assertion .tcp_connection_cc 295)
  let c := c.setState .kdisconnected
  let c := { c with channel := c.channel.disableAll }
  return (c, [.connectionCallback c.connected, .closeCallback])

def forceCloseInLoop (c : TcpConnection) : Except Fault (TcpConnection × List Effect) :=
  if c.state = .kconnected ∨ c.state = .kdisconnecting then c.handleClose else return (c, [])

/-- `HandleRead`: data for the user, the end of the stream, or an error that is only logged. -/
def handleRead (c : TcpConnection) (r : ReadvResult) :
    Except Fault (TcpConnection × List Effect) := do
  let (inputBuffer, n, _) ← c.inputBuffer.readFd r
  let c := { c with inputBuffer := inputBuffer }
  if n > 0 then
    return (c, [.messageCallback])
  else if n = 0 then
    c.handleClose
  else
    return (c, [])

def handleWrite (c : TcpConnection) (w : WriteResult) :
    Except Fault (TcpConnection × List Effect) := do
  if c.channel.isWriting then
    if w.count > 0 then
      let took : List Effect := [.write (c.outputBuffer.content.take w.count)]
      let outputBuffer ← c.outputBuffer.retrieve w.count
      let c := { c with outputBuffer := outputBuffer }
      if c.outputBuffer.readableBytes = 0 then
        let c := { c with channel := c.channel.disableWriting }
        let last := if c.state = .kdisconnecting then c.shutdownInLoop else []
        return (c, took ++ c.queueWriteComplete ++ last)
      else
        return (c, took)
    else
      return (c, [])
  else
    return (c, [])

def destruct (c : TcpConnection) : Except Fault Unit :=
  check (c.state = .kdisconnected) (.assertion .tcp_connection_cc 58)

end TcpConnection

end Dwater
