import Dwater.Base.Types
import Dwater.Lib.Window

/-! # The application buffer

`Buffer` is a vector of bytes with a reader and a writer index. A pointer into the
vector is the index it points to, so `Peek()` is the reader index and `BeginWrite()`
the writer index. An operation that asserts returns its fault when the assertion
fails.
-/

set_option autoImplicit false
namespace Dwater

open Fallible Window

structure Buffer where
  buffer : List Byte
  readerIndex : ℕ
  writerIndex : ℕ
  deriving DecidableEq, Repr

/-- What `readv` reports: the bytes it scattered over the vectors, or an `errno`. -/
inductive ReadvResult
  | bytes (data : List Byte)
  | error (errno : ℕ)
  deriving DecidableEq, Repr

namespace Buffer

def kcheapPrepend : ℕ := 8

def kinitialSize : ℕ := 1024

/-- The size of the stack buffer that `ReadFd` hands to `readv`. -/
def extrabufSize : ℕ := 65536

def readableBytes (b : Buffer) : ℕ := b.writerIndex - b.readerIndex

def writableBytes (b : Buffer) : ℕ := b.buffer.length - b.writerIndex

def prependableBytes (b : Buffer) : ℕ := b.readerIndex

def peek (b : Buffer) : ℕ := b.readerIndex

def beginWrite (b : Buffer) : ℕ := b.writerIndex

def content (b : Buffer) : List Byte := slice b.buffer b.readerIndex b.writerIndex

def new (initialSize : ℕ) : Except Fault Buffer := do
  let b : Buffer := ⟨List.replicate (kcheapPrepend + initialSize) 0, kcheapPrepend, kcheapPrepend⟩
  check (b.readableBytes = 0) (.assertion .buffer_h 39)
  check (b.writableBytes = initialSize) (.assertion .buffer_h 40)
  check (b.prependableBytes = kcheapPrepend) (.assertion .buffer_h 41)
  return b

/-- `b.Swap(rhs)`, with the new value of `b` first. -/
def swap (b rhs : Buffer) : Buffer × Buffer :=
  (⟨rhs.buffer, rhs.readerIndex, rhs.writerIndex⟩, ⟨b.buffer, b.readerIndex, b.writerIndex⟩)

def retrieveAll (b : Buffer) : Buffer :=
  { b with readerIndex := kcheapPrepend, writerIndex := kcheapPrepend }

def retrieve (b : Buffer) (len : ℕ) : Except Fault Buffer := do
  check (len ≤ b.readableBytes) (.assertion .buffer_h 86)
  if len < b.readableBytes then
    return { b with readerIndex := b.readerIndex + len }
  else
    return b.retrieveAll

def retrieveUntil (b : Buffer) (stop : ℕ) : Except Fault Buffer := do
  check (b.peek ≤ stop) (.assertion .buffer_h 95)
  check (stop ≤ b.beginWrite) (.assertion .buffer_h 96)
  b.retrieve (stop - b.peek)

def retrieveInt64 (b : Buffer) : Except Fault Buffer := b.retrieve 8

def retrieveInt32 (b : Buffer) : Except Fault Buffer := b.retrieve 4

def retrieveInt16 (b : Buffer) : Except Fault Buffer := b.retrieve 2

def retrieveInt8 (b : Buffer) : Except Fault Buffer := b.retrieve 1

def retrieveAsString (b : Buffer) (len : ℕ) : Except Fault (Buffer × List Byte) := do
  check (len ≤ b.readableBytes) (.assertion .buffer_h 126)
  let result := slice b.buffer b.peek (b.peek + len)
  let b ← b.retrieve len
  return (b, result)

def retrieveAllAsString (b : Buffer) : Except Fault (Buffer × List Byte) :=
  b.retrieveAsString b.readableBytes

def toStringPiece (b : Buffer) : StringPiece :=
  ⟨b.buffer.drop b.peek, toInt b.readableBytes⟩

/-- Grow the vector, or slide the content down to the cheap prepend area. -/
def makeSpace (b : Buffer) (len : ℕ) : Except Fault Buffer := do
  if b.writableBytes + b.prependableBytes < len + kcheapPrepend then
    return { b with buffer := resize b.buffer (b.writerIndex + len) 0 }
  else
    check (kcheapPrepend < b.readerIndex) (.assertion .buffer_h 322)
    let readable := b.readableBytes
    let b : Buffer :=
      { buffer := overwrite b.buffer kcheapPrepend (slice b.buffer b.readerIndex b.writerIndex)
        readerIndex := kcheapPrepend
        writerIndex := kcheapPrepend + readable }
    check (readable = b.readableBytes) (.assertion .buffer_h 329)
    return b

def ensureWritableBytes (b : Buffer) (len : ℕ) : Except Fault Buffer := do
  let b ← (if b.writableBytes < len then b.makeSpace len else pure b : Except Fault Buffer)
  check (len ≤ b.writableBytes) (.assertion .buffer_h 154)
  return b

/-- The caller's stores through `BeginWrite()`, or `std::copy` to it. -/
def store (b : Buffer) (data : List Byte) : Except Fault Buffer := do
  check (data.length ≤ b.writableBytes) (.outOfBounds .buffer_h 157)
  return { b with buffer := overwrite b.buffer b.beginWrite data }

def hasWritten (b : Buffer) (len : ℕ) : Except Fault Buffer := do
  check (len ≤ b.writableBytes) (.assertion .buffer_h 162)
  return { b with writerIndex := b.writerIndex + len }

def unwrite (b : Buffer) (len : ℕ) : Except Fault Buffer := do
  check (len ≤ b.readableBytes) (.assertion .buffer_h 167)
  return { b with writerIndex := b.writerIndex - len }

def append (b : Buffer) (data : List Byte) : Except Fault Buffer := do
  let b ← b.ensureWritableBytes data.length
  let b ← b.store data
  b.hasWritten data.length

/-- What stops `Append` when its length was a negative `int`: the vector never has that room, and
`MakeSpace` computes with numbers of 64 bits. -/
def tooLong (b : Buffer) (len : ℕ) : Fault :=
  if b.writableBytes + b.prependableBytes < (len + kcheapPrepend) % 2 ^ 64 then
    if 2 ^ 63 ≤ (b.writerIndex + len) % 2 ^ 64 then .lengthError .buffer_h 320
    -- the new size has wrapped around, and so does the room that is left
    else .outOfBounds .buffer_h 142
  else if b.readerIndex ≤ kcheapPrepend then .assertion .buffer_h 322
  else .assertion .buffer_h 154

/-- `Append(const StringPiece& str)`: the `int` size becomes a `size_t` length. -/
def appendPiece (b : Buffer) (str : StringPiece) : Except Fault Buffer := do
  let len := toSizeT str.length
  check (0 ≤ str.length) (b.tooLong len)
  check (len ≤ str.ptr.length) (.outOfBounds .buffer_h 142)
  b.append (str.ptr.take len)

def prepend (b : Buffer) (data : List Byte) : Except Fault Buffer := do
  check (data.length ≤ b.prependableBytes) (.assertion .buffer_h 289)
  let readerIndex := b.readerIndex - data.length
  return { b with buffer := overwrite b.buffer readerIndex data, readerIndex := readerIndex }

def shrink (b : Buffer) (reserve : ℕ) : Except Fault Buffer := do
  let other ← new kinitialSize
  let other ← other.ensureWritableBytes (b.readableBytes + reserve)
  let other ← other.appendPiece b.toStringPiece
  return (b.swap other).1

/-- How many bytes the vectors given to `readv` can take. -/
def readvRoom (b : Buffer) : ℕ :=
  if b.writableBytes < extrabufSize then b.writableBytes + extrabufSize else b.writableBytes

/-- `ReadFd` with the buffer, the returned count and the saved `errno`. -/
def readFd (b : Buffer) : ReadvResult → Except Fault (Buffer × ℤ × Option ℕ)
  | .error errno => return (b, -1, some errno)
  | .bytes data => do
    let writable := b.writableBytes
    let extrabuf := data.drop writable
    let b ← b.store (data.take writable)
    if data.length ≤ writable then
      return ({ b with writerIndex := b.writerIndex + data.length }, data.length, none)
    else
      let b ← { b with writerIndex := b.buffer.length }.append extrabuf
      return (b, data.length, none)

end Buffer

end Dwater
