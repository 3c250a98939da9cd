import Dwater.Base.Logging.FixedBuffer

/-! # Asynchronous logging

The front end appends to `curr_buffer_` under the mutex. `ThreadFunc` tests `running_`,
takes the filled buffers in one critical section and writes them to the log file. The
mutex is free while `ThreadFunc` waits, and nothing it touches between its critical
sections is shared, so its steps are the test, the lock, the wakeup and the writing.
-/

set_option autoImplicit false
namespace Dwater

open Fallible

abbrev BufferPtr := Option (FixedBuffer kLargeBuffer)

/--
What a round of `ThreadFunc` does with its buffers: the notice and the buffers it hands to
`LogFile::Append`, and the buffers it discards after writing the notice.
-/
inductive LogItem
  | notice (buffers : ℕ)
  | data (content : List Byte)
  | discarded (content : List Byte)
  deriving DecidableEq, Repr

/-- The log messages that an item accounts for. -/
def LogItem.content : LogItem → List Byte
  | notice _ => []
  | data content => content
  | discarded content => content

/-- Where the background thread is; `exited` is after the loop of `ThreadFunc`. -/
inductive LoggingPhase
  | notStarted | test | lock | wait | write | exited
  deriving DecidableEq, Repr

/-- The members of `AsyncLogging` and the locals of `ThreadFunc`. -/
structure AsyncLogging where
  running : Bool
  currBuffer : BufferPtr
  nextBuffer : BufferPtr
  buffers : List BufferPtr
  phase : LoggingPhase
  newBuffer1 : BufferPtr
  newBuffer2 : BufferPtr
  buffersToWrite : List BufferPtr
  output : List LogItem
  deriving DecidableEq, Repr

namespace AsyncLogging

def new : AsyncLogging where
  running := false
  currBuffer := some .new
  nextBuffer := some .new
  buffers := []
  phase := .notStarted
  newBuffer1 := some .new
  newBuffer2 := some .new
  buffersToWrite := []
  output := []

def append (l : AsyncLogging) (logline : List Byte) : Except Fault AsyncLogging :=
  match l.currBuffer with
  | none => .error (.nullPointer .async_logging_cc 59)
  | some curr =>
    if curr.avail ≠ 0 then do
      let curr ← curr.append logline
      return { l with currBuffer := some curr }
    else
      match l.nextBuffer with
      | some next => do
        let next ← next.append logline
        return { l with
          buffers := l.buffers ++ [some curr], currBuffer := some next, nextBuffer := none }
      | none => do
        let next ← FixedBuffer.new.append logline
        return { l with buffers := l.buffers ++ [some curr], currBuffer := some next }

/-- `Start()` up to its return; the assertion at the head of `ThreadFunc` follows the store. -/
def start (l : AsyncLogging) : AsyncLogging := { l with running := true, phase := .test }

def isEmptyBuffer : BufferPtr → Bool
  | some b => b.length = 0
  | none => false

/-- The condition of the loop and the assertions at the head of its body. -/
def testRunning (l : AsyncLogging) : Except Fault AsyncLogging :=
  if l.running then do
    check (isEmptyBuffer l.newBuffer1) (.assertion .async_logging_cc 87)
    check (isEmptyBuffer l.newBuffer2) (.assertion .async_logging_cc 88)
    check (l.buffersToWrite = []) (.assertion .async_logging_cc 89)
    return { l with phase := .lock }
  else return { l with phase := .exited }

/-- The rest of the critical section once `ThreadFunc` does not wait or has waited. -/
def swapBuffers (l : AsyncLogging) : AsyncLogging :=
  { l with
    phase := .write
    buffersToWrite := l.buffers ++ [l.currBuffer]
    buffers := l.buffersToWrite
    currBuffer := l.newBuffer1
    newBuffer1 := none
    nextBuffer := if l.nextBuffer = none then l.newBuffer2 else l.nextBuffer
    newBuffer2 := if l.nextBuffer = none then none else l.newBuffer2 }

/-- The head of the critical section; `WaitForSeconds` releases the mutex. -/
def lock (l : AsyncLogging) : AsyncLogging :=
  if l.buffers = [] then { l with phase := .wait } else l.swapBuffers

def writeBuffer : BufferPtr → Except Fault LogItem
  | some b => .ok (.data b.content)
  | none => .error (.nullPointer .async_logging_cc 123)

/-- The buffers that are erased after the notice, by their contents. -/
def discard (b : BufferPtr) : LogItem := .discarded (b.elim [] FixedBuffer.content)

def writeBuffers (buffers : List BufferPtr) : Except Fault (List LogItem) :=
  if buffers.length > 25 then do
    let items ← (buffers.take 2).mapM writeBuffer
    return .notice (buffers.length - 2) :: items ++ (buffers.drop 2).map discard
  else buffers.mapM writeBuffer

/--
The statements that give `ThreadFunc` a new buffer for one it has handed over: the last buffer
written is moved to the pointer, whose `reset()` then deletes it.
-/
def renew (newBuffer : BufferPtr) (buffersToWrite : List BufferPtr) (line : ℕ) :
    Except Fault (BufferPtr × List BufferPtr) :=
  match newBuffer with
  | some b => return (some b, buffersToWrite)
  | none => do
    check (buffersToWrite ≠ []) (.assertion .async_logging_cc line)
    return (none, buffersToWrite.dropLast)

/-- The round from the end of its critical section on. -/
def write (l : AsyncLogging) : Except Fault AsyncLogging := do
  check (l.buffersToWrite ≠ []) (.assertion .async_logging_cc 110)
  let items ← writeBuffers l.buffersToWrite
  let (newBuffer1, rest) ← renew l.newBuffer1 (l.buffersToWrite.take 2) 132
  let (newBuffer2, _) ← renew l.newBuffer2 rest 139
  return { l with
    phase := .test
    newBuffer1 := newBuffer1
    newBuffer2 := newBuffer2
    buffersToWrite := []
    output := l.output ++ items }

end AsyncLogging

end Dwater
