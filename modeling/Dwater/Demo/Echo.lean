import Dwater.Net.MessageService
import Dwater.Net.Http.HttpResponse

/-! # The echo server

`OnMessage` takes everything out of the input buffer and sends it back. The string goes through a
`StringPiece`, whose length is an `int`; no message is too long for that, because the buffer is
empty before every read and a read takes at most twice the size of the stack buffer of `ReadFd`.
-/

set_option autoImplicit false
namespace Dwater

open Fallible Buffer Window

namespace Buffer

variable {b b' : Buffer} {data : List Byte} {n : ℤ} {e : Option ℕ}

theorem length_makeSpace {len : ℕ} (h : b.Inv) (hl : b.writableBytes < len) :
    Yields (b.makeSpace len) fun b' => b'.buffer.length ≤ b.writerIndex + len := by
  unfold makeSpace
  split
  · refine yields_pure.mpr (le_of_eq (length_resize ?_))
    simp only [writableBytes] at hl
    omega
  · next hge =>
    have hr := h.reader_le
    have hw := h.writer_le
    simp only [writableBytes, prependableBytes] at hl hge
    have hlt : kcheapPrepend < b.readerIndex := by omega
    have hs : (slice b.buffer b.readerIndex b.writerIndex).length =
        b.writerIndex - b.readerIndex := length_slice hw
    simp only [check_bind_of_true hlt, readableBytes, Nat.add_sub_cancel_left, check_bind_of_true,
      yields_pure]
    rw [length_overwrite (by omega)]
    omega

theorem length_append_le (h : b.Inv) (happ : b.append data = .ok b') :
    b'.buffer.length ≤ max b.buffer.length (b.writerIndex + data.length) := by
  obtain ⟨b₁, hensure, hwritten⟩ := bind_eq_ok happ
  have hw := ((ensureWritableBytes_represents h.represents data.length).of_eq hensure).1.1.writer_le
  obtain ⟨b₂, hspace, hroom⟩ := bind_eq_ok hensure
  obtain ⟨hle, hroom⟩ := check_bind_eq_ok hroom
  cases hroom
  obtain ⟨b₃, hstore, hwritten⟩ := bind_eq_ok hwritten
  obtain ⟨-, hwritten⟩ := check_bind_eq_ok hwritten
  cases hwritten
  have hlen : b₃.buffer.length = b₁.buffer.length := length_store hw hstore
  simp only [hlen]
  rcases ite_eq_ok hspace with ⟨hlt, hspace⟩ | rfl
  · have := (length_makeSpace h hlt).of_eq hspace
    omega
  · omega

theorem length_readFd_le (h : b.Inv) (hread : b.readFd (.bytes data) = .ok (b', n, e)) :
    b'.buffer.length ≤ b.buffer.length + (data.length - b.writableBytes) := by
  have hw := h.writer_le
  obtain ⟨b₁, hstore, hread⟩ := bind_eq_ok hread
  have hlen : b₁.buffer.length = b.buffer.length := length_store hw hstore
  obtain ⟨-, hstore⟩ := check_bind_eq_ok hstore
  cases hstore
  split at hread
  · cases hread
    simp only [hlen]
    omega
  · next hgt =>
    obtain ⟨b₂, happ, hret⟩ := bind_eq_ok hread
    cases hret
    refine (length_append_le ?_ happ).trans ?_
    · exact ⟨hlen ▸ h.prepend_le, h.reader_le.trans (hlen ▸ hw), le_rfl⟩
    · simp only [hlen, List.length_drop]
      omega

def Empty (b : Buffer) : Prop := b.readerIndex = kcheapPrepend ∧ b.writerIndex = kcheapPrepend

theorem Empty.represents (h : b.Empty) (hb : b.Inv) : b.Represents [] := by
  refine ⟨hb, ?_⟩
  rw [content, h.1, h.2, slice_self]

/-- `RetrieveAllAsString` moves the indices only. -/
theorem retrieveAllAsString_empty {q : List Byte} (h : b.Represents q) :
    b.retrieveAllAsString = .ok (b.retrieveAll, q) := by
  have hq : slice b.buffer b.peek (b.peek + b.readableBytes) = q := by
    have hr : b.readerIndex + (b.writerIndex - b.readerIndex) = b.writerIndex :=
      Nat.add_sub_cancel' h.1.reader_le
    rw [← h.2, content, readableBytes, peek, hr]
  have hretrieve : b.retrieve b.readableBytes = .ok b.retrieveAll := by
    rw [retrieve, check_bind_of_true le_rfl, if_neg (lt_irrefl _)]
    rfl
  rw [retrieveAllAsString, retrieveAsString, check_bind_of_true le_rfl, hretrieve, hq]
  rfl

end Buffer

def EchoServer.onMessage : MessageCallback Unit := fun _ buf _ => do
  let (buf, msg) ← buf.retrieveAllAsString
  return ((), buf, [.sendPiece (.ofString msg)])

namespace EchoServer

/-- The most that the input buffer can grow to. -/
def bufferBound : ℕ := kcheapPrepend + 2 * extrabufSize

/-- What `OnMessage` keeps: the input buffer is empty and has not grown much, and everything that
was read has been sent. -/
structure Inv (app : Unit) (chunks : List (List Byte × Timestamp)) (b : Buffer)
    (out : List Reply) : Prop where
  empty : b.Empty
  bounded : b.buffer.length ≤ bufferBound
  sent : out.flatMap Reply.bytes = chunks.flatMap Prod.fst
  open' : .shutdown ∉ out

theorem bytes_sendPiece {str : List Byte} (h : str.length < 2 ^ 31) :
    (Reply.sendPiece (.ofString str)).bytes = str ∧
      (Reply.sendPiece (.ofString str)).Readable := by
  have hlt : (str.length : ℤ) < 2 ^ 64 := by omega
  have hsize : toSizeT (toInt str.length) = str.length := by
    rw [toInt_of_lt h, toSizeT, Int.emod_eq_of_lt (Int.natCast_nonneg _) hlt, Int.toNat_natCast]
  constructor
  · simp only [Reply.bytes, StringPiece.ofString, hsize, List.take_length]
  · simp only [Reply.Readable, StringPiece.ofString, hsize, le_refl]

theorem onMessage_keeps : MessageService.Keeps onMessage Inv fun _ _ => True := by
  intro app chunks b b' out x h hb _ hne hroom hread
  have hw := hb.writer_le
  have hrep : b'.Represents x.1 := ((readFd_represents (h.empty.represents hb) x.1).of_eq hread).1
  have hbound : b'.buffer.length ≤ bufferBound := by
    have hlen := length_readFd_le hb hread
    have hempty := h.empty.2
    have hbounded := h.bounded
    unfold readvRoom at hroom
    unfold writableBytes at hroom hlen
    unfold bufferBound kcheapPrepend extrabufSize at *
    split at hroom
    · omega
    · omega
  have hlong : x.1.length < 2 ^ 31 := by
    have hlen := hrep.length
    have := hrep.1.writer_le
    simp only [readableBytes] at hlen
    simp only [bufferBound, kcheapPrepend, extrabufSize] at hbound
    omega
  obtain ⟨hbytes, hreadable⟩ := bytes_sendPiece hlong
  unfold onMessage
  rw [retrieveAllAsString_empty hrep, ok_bind]
  refine yields_pure.mpr ⟨⟨⟨rfl, rfl⟩, hbound, ?_, ?_⟩, (retrieveAll_represents hrep).1, ?_⟩
  · simp only [List.flatMap_append, List.flatMap_cons, List.flatMap_nil, List.append_nil, hbytes,
      h.sent]
  · simpa using h.open'
  · intro reply hreply
    rw [List.mem_singleton.mp hreply]
    exact hreadable

def accepted : TcpConnection :=
  { idleConnection with inputBuffer := ⟨List.replicate (kcheapPrepend + kinitialSize) 0, 8, 8⟩ }

end EchoServer

end Dwater
