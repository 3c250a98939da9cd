import Mathlib.Logic.Function.Basic
import Dwater.Net.Buffer

/-! # The buffer as a byte queue

A buffer represents the list of bytes between its two indices. Every operation,
called within the precondition it asserts, runs without a failed assertion, keeps
the index invariant and acts on the represented list as on a queue that also
allows pushing to the front and taking back from the end. A family of buffers
under any sequence of operations and swaps therefore refines a family of lists.
-/

set_option autoImplicit false
namespace Dwater

open Fallible Window

namespace Buffer

/-- The indices are ordered and the vector keeps room for the cheap prepend area. -/
structure Inv (b : Buffer) : Prop where
  prepend_le : kcheapPrepend ≤ b.buffer.length
  reader_le : b.readerIndex ≤ b.writerIndex
  writer_le : b.writerIndex ≤ b.buffer.length

/-- The buffer is well formed and holds exactly the bytes `q`. -/
def Represents (b : Buffer) (q : List Byte) : Prop := b.Inv ∧ b.content = q

variable {b : Buffer} {q data : List Byte} {len n : ℕ}

theorem Inv.represents (h : b.Inv) : b.Represents b.content := ⟨h, rfl⟩

theorem Inv.length_content (h : b.Inv) : b.content.length = b.readableBytes :=
  length_slice h.writer_le

theorem Represents.length (h : b.Represents q) : q.length = b.readableBytes :=
  h.2 ▸ h.1.length_content

theorem new_eq (n : ℕ) : new n =
    .ok ⟨List.replicate (kcheapPrepend + n) 0, kcheapPrepend, kcheapPrepend⟩ := by
  have hw : kcheapPrepend + n - kcheapPrepend = n := by omega
  simp only [new, readableBytes, writableBytes, prependableBytes, List.length_replicate, hw,
    Nat.sub_self, check_bind_of_true]
  rfl

theorem new_represents (n : ℕ) : Yields (new n) (Represents · []) := by
  rw [new_eq, yields_ok]
  refine ⟨⟨?_, le_rfl, ?_⟩, slice_self⟩ <;> simp

theorem retrieveAll_represents (h : b.Represents q) : b.retrieveAll.Represents [] :=
  ⟨⟨h.1.prepend_le, le_rfl, h.1.prepend_le⟩, slice_self⟩

theorem retrieve_represents (h : b.Represents q) (hl : len ≤ q.length) :
    Yields (b.retrieve len) (Represents · (q.drop len)) := by
  have hq := h.length
  simp only [retrieve, check_bind_of_true (hq ▸ hl)]
  split
  · next hlt =>
    rw [yields_pure]
    refine ⟨⟨h.1.prepend_le, ?_, h.1.writer_le⟩, ?_⟩
    · simp only [readableBytes] at hlt ⊢; omega
    · rw [← h.2, content, content, drop_slice]
  · next hge =>
    rw [yields_pure, List.drop_eq_nil_of_le (by omega)]
    exact retrieveAll_represents h

theorem retrieveUntil_represents (h : b.Represents q) (hl : len ≤ q.length) :
    Yields (b.retrieveUntil (b.peek + len)) (Represents · (q.drop len)) := by
  have hq := h.length
  have hr := h.1.reader_le
  have hs : b.peek + len ≤ b.beginWrite := by
    simp only [readableBytes] at hq; simp only [peek, beginWrite]; omega
  simp only [retrieveUntil, check_bind_of_true (Nat.le_add_right b.peek len),
    check_bind_of_true hs, Nat.add_sub_cancel_left]
  exact retrieve_represents h hl

theorem retrieveAsString_represents (h : b.Represents q) (hl : len ≤ q.length) :
    Yields (b.retrieveAsString len) fun r => r.1.Represents (q.drop len) ∧ r.2 = q.take len := by
  have hq := h.length
  have hr := h.1.reader_le
  simp only [retrieveAsString, check_bind_of_true (hq ▸ hl)]
  refine yields_bind (retrieve_represents h hl) fun b' hb' => ?_
  have ht : q.take len = slice b.buffer b.peek (b.peek + len) := by
    rw [← h.2, content, take_slice (by simp only [readableBytes] at hq; omega), peek]
  exact yields_pure.mpr ⟨hb', ht.symm⟩

theorem makeSpace_represents (h : b.Represents q) (hl : b.writableBytes < len) :
    Yields (b.makeSpace len) fun b' => b'.Represents q ∧ len ≤ b'.writableBytes := by
  obtain ⟨⟨hp, hr, hw⟩, rfl⟩ := h
  simp only [writableBytes] at hl
  unfold makeSpace
  split
  · have hlen : (resize b.buffer (b.writerIndex + len) 0).length = b.writerIndex + len :=
      length_resize (by omega)
    rw [yields_pure]
    refine ⟨⟨⟨?_, hr, ?_⟩, slice_resize hw (by omega)⟩, ?_⟩ <;>
      simp only [writableBytes, hlen] <;> omega
  · next hge =>
    simp only [prependableBytes, writableBytes] at hge
    -- the slide is chosen only when the reader has moved past the prepend area
    have hlt : kcheapPrepend < b.readerIndex := by omega
    have hs : (slice b.buffer b.readerIndex b.writerIndex).length =
        b.writerIndex - b.readerIndex := length_slice hw
    have hin : kcheapPrepend + (slice b.buffer b.readerIndex b.writerIndex).length ≤
        b.buffer.length := by omega
    simp only [check_bind_of_true hlt, readableBytes, Nat.add_sub_cancel_left,
      check_bind_of_true, yields_pure]
    refine ⟨⟨⟨?_, ?_, ?_⟩, ?_⟩, ?_⟩
    · simpa only [length_overwrite hin] using hp
    · exact Nat.le_add_right _ _
    · simp only [length_overwrite hin]; omega
    · simp only [content, ← hs]
      exact slice_overwrite_self hp
    · simp only [writableBytes, length_overwrite hin]; omega

theorem ensureWritableBytes_represents (h : b.Represents q) (len : ℕ) :
    Yields (b.ensureWritableBytes len) fun b' => b'.Represents q ∧ len ≤ b'.writableBytes := by
  have hroom : Yields (if b.writableBytes < len then b.makeSpace len else pure b)
      fun b' => b'.Represents q ∧ len ≤ b'.writableBytes := by
    split
    · next hl => exact makeSpace_represents h hl
    · next hl => exact yields_pure.mpr ⟨h, by omega⟩
  unfold ensureWritableBytes
  refine yields_bind hroom fun b' hb' => ?_
  simp only [check_bind_of_true hb'.2, yields_pure]
  exact hb'

theorem store_represents (h : b.Represents q) (hl : data.length ≤ b.writableBytes) :
    Yields (b.store data) fun b' => b'.Represents q ∧ b'.buffer.length = b.buffer.length ∧
      b'.writerIndex = b.writerIndex ∧
      slice b'.buffer b'.writerIndex (b'.writerIndex + data.length) = data := by
  obtain ⟨⟨hp, hr, hw⟩, rfl⟩ := h
  rw [store, check_bind_of_true hl, yields_pure]
  simp only [writableBytes] at hl
  have hlen : (overwrite b.buffer b.writerIndex data).length = b.buffer.length :=
    length_overwrite (by omega)
  refine ⟨⟨⟨?_, hr, ?_⟩, slice_overwrite_before le_rfl hw⟩, hlen, rfl, slice_overwrite_self hw⟩
  · simpa only [beginWrite, hlen] using hp
  · simpa only [beginWrite, hlen] using hw

theorem store_nil (b : Buffer) : b.store [] = .ok b := by
  have hsame : overwrite b.buffer b.beginWrite [] = b.buffer := by simp [overwrite]
  simp only [store, List.length_nil, Nat.zero_le, check_bind_of_true, hsame]
  rfl

theorem length_store {b' : Buffer} (hw : b.writerIndex ≤ b.buffer.length)
    (h : b.store data = .ok b') : b'.buffer.length = b.buffer.length := by
  obtain ⟨hl, h⟩ := check_bind_eq_ok h
  cases h
  rw [writableBytes] at hl
  exact length_overwrite (by rw [beginWrite]; omega)

theorem advance_represents (h : b.Represents q) (hl : data.length ≤ b.writableBytes)
    (hd : slice b.buffer b.writerIndex (b.writerIndex + data.length) = data) :
    { b with writerIndex := b.writerIndex + data.length }.Represents (q ++ data) := by
  obtain ⟨⟨hp, hr, hw⟩, rfl⟩ := h
  simp only [writableBytes] at hl
  refine ⟨⟨hp, by simp only; omega, by simp only; omega⟩, ?_⟩
  conv_rhs => rw [← hd]
  exact (slice_append_slice hr (Nat.le_add_right _ _)).symm

theorem hasWritten_represents (h : b.Represents q) (hl : data.length ≤ b.writableBytes)
    (hd : slice b.buffer b.writerIndex (b.writerIndex + data.length) = data) :
    Yields (b.hasWritten data.length) (Represents · (q ++ data)) := by
  simp only [hasWritten, check_bind_of_true hl, yields_pure]
  exact advance_represents h hl hd

theorem append_represents (h : b.Represents q) (data : List Byte) :
    Yields (b.append data) (Represents · (q ++ data)) := by
  refine yields_bind (ensureWritableBytes_represents h data.length) fun b' hb' => ?_
  refine yields_bind (store_represents hb'.1 hb'.2) fun b₂ hb₂ => ?_
  obtain ⟨hs, hlen, hw, hd⟩ := hb₂
  have hroom : data.length ≤ b₂.writableBytes := by
    rw [writableBytes, hlen, hw]
    exact hb'.2
  exact hasWritten_represents hs hroom hd

theorem appendPiece_represents (h : b.Represents q) {str : StringPiece}
    (h0 : 0 ≤ str.length) (hl : str.length ≤ str.ptr.length) (hb : str.length < 2 ^ 64) :
    Yields (b.appendPiece str) (Represents · (q ++ str.ptr.take str.length.toNat)) := by
  have hs : toSizeT str.length = str.length.toNat := by
    rw [toSizeT, Int.emod_eq_of_lt h0 hb]
  have hn : str.length.toNat ≤ str.ptr.length := by omega
  simp only [appendPiece, hs, check_bind_of_true h0, check_bind_of_true hn]
  exact append_represents h _

theorem unwrite_represents (h : b.Represents q) (hl : len ≤ q.length) :
    Yields (b.unwrite len) (Represents · (q.take (q.length - len))) := by
  have hq := h.length
  obtain ⟨⟨hp, hr, hw⟩, rfl⟩ := h
  simp only [unwrite, check_bind_of_true (hq ▸ hl), yields_pure]
  simp only [readableBytes] at hq
  refine ⟨⟨hp, by simp only; omega, by simp only; omega⟩, ?_⟩
  rw [hq, content, content, take_slice (by omega),
    show b.readerIndex + (b.writerIndex - b.readerIndex - len) = b.writerIndex - len by omega]

theorem prepend_represents (h : b.Represents q) (hl : data.length ≤ b.prependableBytes) :
    Yields (b.prepend data) (Represents · (data ++ q)) := by
  obtain ⟨⟨hp, hr, hw⟩, rfl⟩ := h
  simp only [prepend, check_bind_of_true hl, yields_pure]
  simp only [prependableBytes] at hl
  have hin : b.readerIndex - data.length + data.length ≤ b.buffer.length := by omega
  refine ⟨⟨?_, ?_, ?_⟩, ?_⟩
  · simpa only [length_overwrite hin] using hp
  · simp only; omega
  · simpa only [length_overwrite hin] using hw
  · have hn : b.readerIndex - data.length + data.length = b.readerIndex := by omega
    have h₁ : slice (overwrite b.buffer (b.readerIndex - data.length) data)
        (b.readerIndex - data.length) (b.readerIndex - data.length + data.length) = data :=
      slice_overwrite_self (by omega)
    have h₂ := slice_overwrite_after (k := b.writerIndex) (le_refl _) hin
    rw [hn] at h₁ h₂
    rw [content, ← slice_append_slice (Nat.sub_le b.readerIndex data.length) hr, h₁, h₂]
    rfl

theorem shrink_represents (h : b.Represents q) (hb : b.buffer.length < 2 ^ 31) (reserve : ℕ) :
    Yields (b.shrink reserve) (Represents · q) := by
  have hq := h.length
  have hle : b.readableBytes < 2 ^ 31 := by
    have := h.1.writer_le; simp only [readableBytes]; omega
  refine yields_bind (new_represents _) fun o ho => ?_
  refine yields_bind (ensureWritableBytes_represents ho _) fun o ho => ?_
  have hlen : b.toStringPiece.length = b.readableBytes := by
    simp only [toStringPiece, toInt_of_lt hle]
  have hptr : b.toStringPiece.ptr.take b.readableBytes = q := by
    have hr : b.readerIndex + (b.writerIndex - b.readerIndex) = b.writerIndex := by
      have := h.1.reader_le; omega
    rw [← h.2, content, slice, toStringPiece, readableBytes, peek, List.take_drop, hr]
  have hpl : b.readableBytes ≤ b.toStringPiece.ptr.length := by
    have := h.1.writer_le
    simp only [toStringPiece, readableBytes, peek, List.length_drop]; omega
  have happ : Yields (o.appendPiece b.toStringPiece) (Represents · q) := by
    have hp := appendPiece_represents ho.1 (by rw [hlen]; omega) (by rw [hlen]; omega)
      (by rw [hlen]; omega)
    rwa [hlen, Int.toNat_natCast, hptr, List.nil_append] at hp
  exact yields_bind happ fun o ho => yields_pure.mpr ho

/-- Bytes that fit are taken in place, the others come through the stack buffer. -/
theorem readFd_represents (h : b.Represents q) (data : List Byte) :
    Yields (b.readFd (.bytes data)) fun r =>
      r.1.Represents (q ++ data) ∧ r.2 = (↑data.length, none) := by
  have hle : (data.take b.writableBytes).length ≤ b.writableBytes := by
    simp only [List.length_take]; omega
  unfold readFd
  refine yields_bind (store_represents h hle) fun b₁ hb₁ => ?_
  obtain ⟨hs, hlen, hw, hd⟩ := hb₁
  have hroom : b₁.writableBytes = b.writableBytes := by rw [writableBytes, hlen, hw, writableBytes]
  have hadv := advance_represents hs (hroom ▸ hle) hd
  split
  · next hl =>
    rw [List.take_of_length_le hl] at hadv
    exact yields_pure.mpr ⟨hadv, rfl⟩
  · next hl =>
    -- the first vector is full, so the writer index moves to the end of the storage
    have hend : b₁.writerIndex + (data.take b.writableBytes).length = b₁.buffer.length := by
      have htake : (data.take b.writableBytes).length = b₁.writableBytes := by
        rw [hroom, List.length_take]
        omega
      rw [htake]
      exact Nat.add_sub_cancel' hs.1.writer_le
    rw [hend] at hadv
    refine yields_bind (append_represents hadv _) fun b' hb' => ?_
    rw [List.append_assoc, List.take_append_drop] at hb'
    exact yields_pure.mpr ⟨hb', rfl⟩

theorem readFd_error_represents (h : b.Represents q) (errno : ℕ) :
    Yields (b.readFd (.error errno)) fun r => r.1.Represents q ∧ r.2 = (-1, some errno) :=
  yields_pure.mpr ⟨h, rfl⟩

/--
The calls of a client. `store` is the client's own writing through `BeginWrite()`, `hasWritten`
names the bytes it finds stored there, and `retrieveUntil` gives the distance from `Peek()`.
-/
inductive Op
  | retrieve (len : ℕ)
  | retrieveUntil (len : ℕ)
  | retrieveInt64
  | retrieveInt32
  | retrieveInt16
  | retrieveInt8
  | retrieveAll
  | retrieveAsString (len : ℕ)
  | retrieveAllAsString
  | append (data : List Byte)
  | appendPiece (str : StringPiece)
  | ensureWritableBytes (len : ℕ)
  | store (data : List Byte)
  | hasWritten (data : List Byte)
  | unwrite (len : ℕ)
  | prepend (data : List Byte)
  | shrink (reserve : ℕ)
  | readFd (r : ReadvResult)

/-- What a call gives back to the client. -/
inductive Reply
  | void
  | text (str : List Byte)
  | count (n : ℤ) (savedErrno : Option ℕ)

/-- The precondition a call asserts, or that the client and the kernel owe it. -/
def Op.Pre (b : Buffer) : Op → Prop
  | .retrieve len | .retrieveUntil len | .retrieveAsString len | .unwrite len =>
    len ≤ b.readableBytes
  | .retrieveInt64 => 8 ≤ b.readableBytes
  | .retrieveInt32 => 4 ≤ b.readableBytes
  | .retrieveInt16 => 2 ≤ b.readableBytes
  | .retrieveInt8 => 1 ≤ b.readableBytes
  | .retrieveAll | .retrieveAllAsString | .append _ | .ensureWritableBytes _ | .shrink _ => True
  | .appendPiece str => 0 ≤ str.length ∧ str.length ≤ str.ptr.length ∧ str.length < 2 ^ 31
  | .store data => data.length ≤ b.writableBytes
  | .hasWritten data => data.length ≤ b.writableBytes ∧
      slice b.buffer b.beginWrite (b.beginWrite + data.length) = data
  | .prepend data => data.length ≤ b.prependableBytes
  | .readFd (.bytes data) => data.length ≤ b.readvRoom
  | .readFd (.error _) => True

def silently (x : Except Fault Buffer) : Except Fault (Buffer × Reply) :=
  x >>= fun b => pure (b, .void)

def saying (x : Except Fault (Buffer × List Byte)) : Except Fault (Buffer × Reply) :=
  x >>= fun r => pure (r.1, .text r.2)

def apply (b : Buffer) : Op → Except Fault (Buffer × Reply)
  | .retrieve len => silently (b.retrieve len)
  | .retrieveUntil len => silently (b.retrieveUntil (b.peek + len))
  | .retrieveInt64 => silently b.retrieveInt64
  | .retrieveInt32 => silently b.retrieveInt32
  | .retrieveInt16 => silently b.retrieveInt16
  | .retrieveInt8 => silently b.retrieveInt8
  | .retrieveAll => silently (pure b.retrieveAll)
  | .retrieveAsString len => saying (b.retrieveAsString len)
  | .retrieveAllAsString => saying b.retrieveAllAsString
  | .append data => silently (b.append data)
  | .appendPiece str => silently (b.appendPiece str)
  | .ensureWritableBytes len => silently (b.ensureWritableBytes len)
  | .store data => silently (b.store data)
  | .hasWritten data => silently (b.hasWritten data.length)
  | .unwrite len => silently (b.unwrite len)
  | .prepend data => silently (b.prepend data)
  | .shrink reserve => silently (b.shrink reserve)
  | .readFd r => b.readFd r >>= fun x => pure (x.1, .count x.2.1 x.2.2)

/-- The same calls on a list of bytes: the queue the buffer is there to be. -/
def Op.onQueue (q : List Byte) : Op → List Byte × Reply
  | .retrieve len | .retrieveUntil len => (q.drop len, .void)
  | .retrieveInt64 => (q.drop 8, .void)
  | .retrieveInt32 => (q.drop 4, .void)
  | .retrieveInt16 => (q.drop 2, .void)
  | .retrieveInt8 => (q.drop 1, .void)
  | .retrieveAll => ([], .void)
  | .retrieveAsString len => (q.drop len, .text (q.take len))
  | .retrieveAllAsString => ([], .text q)
  | .append data => (q ++ data, .void)
  | .appendPiece str => (q ++ str.ptr.take str.length.toNat, .void)
  | .ensureWritableBytes _ | .store _ | .shrink _ => (q, .void)
  | .hasWritten data => (q ++ data, .void)
  | .unwrite len => (q.take (q.length - len), .void)
  | .prepend data => (data ++ q, .void)
  | .readFd (.bytes data) => (q ++ data, .count data.length none)
  | .readFd (.error errno) => (q, .count (-1) (some errno))

theorem silently_represents {x : Except Fault Buffer} (h : Yields x (Represents · q)) :
    Yields (silently x) fun r => r.1.Represents q ∧ r.2 = .void :=
  yields_bind h fun _ hb => yields_pure.mpr ⟨hb, rfl⟩

theorem saying_represents {x : Except Fault (Buffer × List Byte)} {str : List Byte}
    (h : Yields x fun r => r.1.Represents q ∧ r.2 = str) :
    Yields (saying x) fun r => r.1.Represents q ∧ r.2 = .text str :=
  yields_bind h fun _ hr => yields_pure.mpr ⟨hr.1, by rw [hr.2]⟩

/-- One call simulates its queue operation. -/
theorem apply_represents (h : b.Represents q) (op : Op) (hp : op.Pre b)
    (hb : b.buffer.length < 2 ^ 31) :
    Yields (b.apply op) fun r => r.1.Represents (op.onQueue q).1 ∧ r.2 = (op.onQueue q).2 := by
  have hq := h.length
  cases op with
  | retrieve len => exact silently_represents (retrieve_represents h (hq ▸ hp))
  | retrieveUntil len => exact silently_represents (retrieveUntil_represents h (hq ▸ hp))
  | retrieveInt64 => exact silently_represents (retrieve_represents h (hq ▸ hp))
  | retrieveInt32 => exact silently_represents (retrieve_represents h (hq ▸ hp))
  | retrieveInt16 => exact silently_represents (retrieve_represents h (hq ▸ hp))
  | retrieveInt8 => exact silently_represents (retrieve_represents h (hq ▸ hp))
  | retrieveAll => exact silently_represents (yields_pure.mpr (retrieveAll_represents h))
  | retrieveAsString len => exact saying_represents (retrieveAsString_represents h (hq ▸ hp))
  | retrieveAllAsString =>
    have hr := retrieveAsString_represents h (le_of_eq hq.symm)
    rw [← hq, List.drop_length, List.take_length] at hr
    exact saying_represents (by rw [retrieveAllAsString, ← hq]; exact hr)
  | append data => exact silently_represents (append_represents h data)
  | appendPiece str =>
    exact silently_represents (appendPiece_represents h hp.1 hp.2.1 (by have := hp.2.2; omega))
  | ensureWritableBytes len =>
    exact silently_represents ((ensureWritableBytes_represents h len).mono fun _ hb' => hb'.1)
  | store data => exact silently_represents ((store_represents h hp).mono fun _ hb' => hb'.1)
  | hasWritten data => exact silently_represents (hasWritten_represents h hp.1 hp.2)
  | unwrite len => exact silently_represents (unwrite_represents h (hq ▸ hp))
  | prepend data => exact silently_represents (prepend_represents h hp)
  | shrink reserve => exact silently_represents (shrink_represents h hb reserve)
  | readFd r =>
    cases r with
    | bytes data =>
      exact yields_bind (readFd_represents h data) fun _ hr =>
        yields_pure.mpr ⟨hr.1, by rw [hr.2]; rfl⟩
    | error errno =>
      exact yields_bind (readFd_error_represents h errno) fun _ hr =>
        yields_pure.mpr ⟨hr.1, by rw [hr.2]; rfl⟩

end Buffer

section Family

open Buffer

variable {ι : Type} [DecidableEq ι]

/-- A call on one buffer of a family, or a swap of two of them. -/
inductive Call (ι : Type)
  | on (i : ι) (op : Op)
  | swap (i j : ι)

def callStep (s : (ι → Buffer) × List Reply) : Call ι → Except Fault ((ι → Buffer) × List Reply)
  | .on i op => do
    let r ← (s.1 i).apply op
    return (Function.update s.1 i r.1, s.2 ++ [r.2])
  | .swap i j =>
    let p := (s.1 i).swap (s.1 j)
    return (Function.update (Function.update s.1 i p.1) j p.2, s.2 ++ [.void])

/-- The call meets its precondition and the vector it finds is smaller than `2 ^ 31`. -/
def CallAllowed (s : (ι → Buffer) × List Reply) : Call ι → Prop
  | .on i op => op.Pre (s.1 i) ∧ (s.1 i).buffer.length < 2 ^ 31
  | .swap _ _ => True

def queueStep (s : (ι → List Byte) × List Reply) : Call ι → (ι → List Byte) × List Reply
  | .on i op => (Function.update s.1 i (op.onQueue (s.1 i)).1, s.2 ++ [(op.onQueue (s.1 i)).2])
  | .swap i j =>
    (Function.update (Function.update s.1 i (s.1 j)) j (s.1 i), s.2 ++ [.void])

def FamilyRepresents (s : (ι → Buffer) × List Reply) (t : (ι → List Byte) × List Reply) : Prop :=
  (∀ i, (s.1 i).Represents (t.1 i)) ∧ s.2 = t.2

theorem callStep_represents (s : (ι → Buffer) × List Reply) (t : (ι → List Byte) × List Reply)
    (c : Call ι) (h : FamilyRepresents s t) (hc : CallAllowed s c) :
    Yields (callStep s c) fun s' => FamilyRepresents s' (queueStep t c) := by
  cases c with
  | on i op =>
    refine yields_bind (apply_represents (h.1 i) op hc.1 hc.2) fun r hr => ?_
    refine yields_pure.mpr ⟨fun j => ?_, by simp only [queueStep, h.2, hr.2]⟩
    by_cases hj : j = i
    · subst hj; simpa [queueStep] using hr.1
    · simpa [queueStep, hj] using h.1 j
  | swap i j =>
    refine yields_pure.mpr ⟨fun k => ?_, by simp only [queueStep, h.2]⟩
    by_cases hj : k = j
    · subst hj; simpa [queueStep, Buffer.swap] using h.1 i
    · by_cases hi : k = i
      · subst hi; simpa [queueStep, Buffer.swap, hj] using h.1 j
      · simpa [queueStep, hi, hj] using h.1 k

/--
Buffers refine byte queues: whatever calls are made, each within its precondition, no assertion
fails, the index invariant holds, and contents and replies are those of lists of bytes.
-/
theorem buffers_refine_queues (sizes : ι → ℕ) (init : ι → Buffer)
    (hinit : ∀ i, Buffer.new (sizes i) = .ok (init i)) (calls : List (Call ι))
    (hcalls : Along callStep CallAllowed (init, []) calls) :
    Yields (run callStep (init, []) calls) fun s =>
      (∀ i, (s.1 i).Inv) ∧
        ((fun i => (s.1 i).content), s.2) = calls.foldl queueStep (fun _ => [], []) := by
  have h₀ : FamilyRepresents (init, []) ((fun _ => [] : ι → List Byte), []) :=
    ⟨fun i => (new_represents (sizes i)).of_eq (hinit i), rfl⟩
  refine (run_simulates callStep_represents h₀ hcalls).mono fun s hs => ?_
  exact ⟨fun i => (hs.1 i).1, Prod.ext (funext fun i => (hs.1 i).2) hs.2⟩

theorem buffers_refine_queues_append_retrieve_swap :
    Yields (run callStep ((fun _ : Bool => ⟨List.replicate 8 0, 8, 8⟩), [])
      [.on true (.append [71, 69, 84]), .on true (.retrieveAsString 1), .swap true false])
      fun s => (∀ i, (s.1 i).Inv) ∧ ((fun i => (s.1 i).content), s.2) =
        [Call.on true (.append [71, 69, 84]), .on true (.retrieveAsString 1),
          .swap true false].foldl queueStep (fun _ => [], []) := by
  refine buffers_refine_queues (fun _ => 0) _ (fun _ => rfl) _ ?_
  refine ⟨⟨trivial, show (8 : ℕ) < 2 ^ 31 by decide⟩, fun s hs => ?_⟩
  cases hs
  refine ⟨⟨show (1 : ℕ) ≤ 3 by decide, show (11 : ℕ) < 2 ^ 31 by decide⟩, fun s hs => ?_⟩
  cases hs
  exact ⟨trivial, fun _ _ => trivial⟩

end Family

end Dwater
