import Dwater.Base.Endian
import Dwater.Net.ByteQueue

/-! # Integers in network order

A buffer stores integers with the most significant byte first. The functions convert
between that order and the order of the host, whichever it is, and copy the bytes of the
converted integer. What is appended is the integer in two's complement, and reading gives
it back, wherever it lies in the vector.
-/

set_option autoImplicit false
namespace Dwater

open Fallible Window Radix

def hostToNetwork64 (order : ByteOrder) (host64 : UInt64) : UInt64 :=
  .ofNat (order.swapToNetwork 8 host64.toNat)

def hostToNetwork32 (order : ByteOrder) (host32 : UInt32) : UInt32 :=
  .ofNat (order.swapToNetwork 4 host32.toNat)

def hostToNetwork16 (order : ByteOrder) (host16 : UInt16) : UInt16 :=
  .ofNat (order.swapToNetwork 2 host16.toNat)

def networkToHost64 (order : ByteOrder) (net64 : UInt64) : UInt64 :=
  .ofNat (order.swapToNetwork 8 net64.toNat)

def networkToHost32 (order : ByteOrder) (net32 : UInt32) : UInt32 :=
  .ofNat (order.swapToNetwork 4 net32.toNat)

def networkToHost16 (order : ByteOrder) (net16 : UInt16) : UInt16 :=
  .ofNat (order.swapToNetwork 2 net16.toNat)

namespace Buffer

def appendInt64 (order : ByteOrder) (b : Buffer) (x : Int64) : Except Fault Buffer :=
  b.append (order.store 8 (hostToNetwork64 order x.toUInt64).toNat)

def appendInt32 (order : ByteOrder) (b : Buffer) (x : Int32) : Except Fault Buffer :=
  b.append (order.store 4 (hostToNetwork32 order x.toUInt32).toNat)

def appendInt16 (order : ByteOrder) (b : Buffer) (x : Int16) : Except Fault Buffer :=
  b.append (order.store 2 (hostToNetwork16 order x.toUInt16).toNat)

def appendInt8 (order : ByteOrder) (b : Buffer) (x : Int8) : Except Fault Buffer :=
  b.append (order.store 1 x.toUInt8.toNat)

def copyInt (order : ByteOrder) (b : Buffer) (n : ℕ) : ℕ :=
  order.load (slice b.buffer b.peek (b.peek + n))

def peekInt64 (order : ByteOrder) (b : Buffer) : Except Fault Int64 := do
  check (8 ≤ b.readableBytes) (.assertion .buffer_h 233)
  return (networkToHost64 order (.ofNat (b.copyInt order 8))).toInt64

def peekInt32 (order : ByteOrder) (b : Buffer) : Except Fault Int32 := do
  check (4 ≤ b.readableBytes) (.assertion .buffer_h 244)
  return (networkToHost32 order (.ofNat (b.copyInt order 4))).toInt32

def peekInt16 (order : ByteOrder) (b : Buffer) : Except Fault Int16 := do
  check (2 ≤ b.readableBytes) (.assertion .buffer_h 251)
  return (networkToHost16 order (.ofNat (b.copyInt order 2))).toInt16

def peekInt8 (order : ByteOrder) (b : Buffer) : Except Fault Int8 := do
  check (1 ≤ b.readableBytes) (.assertion .buffer_h 258)
  return (UInt8.ofNat (b.copyInt order 1)).toInt8

def readInt64 (order : ByteOrder) (b : Buffer) : Except Fault (Buffer × Int64) := do
  let result ← b.peekInt64 order
  let b ← b.retrieveInt64
  return (b, result)

def readInt32 (order : ByteOrder) (b : Buffer) : Except Fault (Buffer × Int32) := do
  let result ← b.peekInt32 order
  let b ← b.retrieveInt32
  return (b, result)

def readInt16 (order : ByteOrder) (b : Buffer) : Except Fault (Buffer × Int16) := do
  let result ← b.peekInt16 order
  let b ← b.retrieveInt16
  return (b, result)

def readInt8 (order : ByteOrder) (b : Buffer) : Except Fault (Buffer × Int8) := do
  let result ← b.peekInt8 order
  let b ← b.retrieveInt8
  return (b, result)

def prependInt64 (order : ByteOrder) (b : Buffer) (x : Int64) : Except Fault Buffer :=
  b.prepend (order.store 8 (hostToNetwork64 order x.toUInt64).toNat)

def prependInt32 (order : ByteOrder) (b : Buffer) (x : Int32) : Except Fault Buffer :=
  b.prepend (order.store 4 (hostToNetwork32 order x.toUInt32).toNat)

def prependInt16 (order : ByteOrder) (b : Buffer) (x : Int16) : Except Fault Buffer :=
  b.prepend (order.store 2 (hostToNetwork16 order x.toUInt16).toNat)

def prependInt8 (order : ByteOrder) (b : Buffer) (x : Int8) : Except Fault Buffer :=
  b.prepend (order.store 1 x.toUInt8.toNat)

end Buffer

inductive IntType
  | int8 | int16 | int32 | int64
  deriving DecidableEq, Repr

inductive NetInt
  | int8 (x : Int8)
  | int16 (x : Int16)
  | int32 (x : Int32)
  | int64 (x : Int64)
  deriving DecidableEq

namespace NetInt

def type : NetInt → IntType
  | int8 _ => .int8
  | int16 _ => .int16
  | int32 _ => .int32
  | int64 _ => .int64

def size : NetInt → ℕ
  | int8 _ => 1
  | int16 _ => 2
  | int32 _ => 4
  | int64 _ => 8

def value : NetInt → ℤ
  | int8 x => x.toInt
  | int16 x => x.toInt
  | int32 x => x.toInt
  | int64 x => x.toInt

def bytes (v : NetInt) : List Byte := beIntBytes v.size v.value

end NetInt

namespace Buffer

variable (order : ByteOrder)

def appendNetInt (b : Buffer) : NetInt → Except Fault Buffer
  | .int8 x => b.appendInt8 order x
  | .int16 x => b.appendInt16 order x
  | .int32 x => b.appendInt32 order x
  | .int64 x => b.appendInt64 order x

def peekNetInt (b : Buffer) : IntType → Except Fault NetInt
  | .int8 => .int8 <$> b.peekInt8 order
  | .int16 => .int16 <$> b.peekInt16 order
  | .int32 => .int32 <$> b.peekInt32 order
  | .int64 => .int64 <$> b.peekInt64 order

def readNetInt (b : Buffer) : IntType → Except Fault (Buffer × NetInt)
  | .int8 => (fun r => (r.1, .int8 r.2)) <$> b.readInt8 order
  | .int16 => (fun r => (r.1, .int16 r.2)) <$> b.readInt16 order
  | .int32 => (fun r => (r.1, .int32 r.2)) <$> b.readInt32 order
  | .int64 => (fun r => (r.1, .int64 r.2)) <$> b.readInt64 order

def prependNetInt (b : Buffer) : NetInt → Except Fault Buffer
  | .int8 x => b.prependInt8 order x
  | .int16 x => b.prependInt16 order x
  | .int32 x => b.prependInt32 order x
  | .int64 x => b.prependInt64 order x

/-- `PeekIntN` and then `ReadIntN` for each type in turn, with what both return. -/
def readNetInts (b : Buffer) : List IntType → Except Fault (Buffer × List (NetInt × NetInt))
  | [] => return (b, [])
  | type :: types => do
    let peeked ← b.peekNetInt order type
    let (b, value) ← b.readNetInt order type
    let (b, values) ← b.readNetInts types
    return (b, (peeked, value) :: values)

end Buffer

namespace NetInt

variable (order : ByteOrder)

def word : NetInt → ℕ
  | int8 x => x.toUInt8.toNat
  | int16 x => x.toUInt16.toNat
  | int32 x => x.toUInt32.toNat
  | int64 x => x.toUInt64.toNat

theorem bytes_eq (v : NetInt) : v.bytes = (leBytes v.size v.word).reverse := by
  cases v with
  | int8 x => exact (leBytes_toNat (n := 1) x.toBitVec (by norm_num)).symm
  | int16 x => exact (leBytes_toNat (n := 2) x.toBitVec (by norm_num)).symm
  | int32 x => exact (leBytes_toNat (n := 4) x.toBitVec (by norm_num)).symm
  | int64 x => exact (leBytes_toNat (n := 8) x.toBitVec (by norm_num)).symm

def image : NetInt → List Byte
  | int8 x => order.store 1 x.toUInt8.toNat
  | int16 x => order.store 2 (hostToNetwork16 order x.toUInt16).toNat
  | int32 x => order.store 4 (hostToNetwork32 order x.toUInt32).toNat
  | int64 x => order.store 8 (hostToNetwork64 order x.toUInt64).toNat

theorem image_eq (v : NetInt) : v.image order = v.bytes := by
  rw [bytes_eq]
  cases v with
  | int8 x => cases order <;> rfl
  | int16 x =>
    have hlt := order.swapToNetwork_lt (n := 2) x.toUInt16.toNat_lt
    rw [image, hostToNetwork16, UInt16.toNat_ofNat_of_lt' hlt, ByteOrder.store_swapToNetwork]
    rfl
  | int32 x =>
    have hlt := order.swapToNetwork_lt (n := 4) x.toUInt32.toNat_lt
    rw [image, hostToNetwork32, UInt32.toNat_ofNat_of_lt' hlt, ByteOrder.store_swapToNetwork]
    rfl
  | int64 x =>
    have hlt := order.swapToNetwork_lt (n := 8) x.toUInt64.toNat_lt
    rw [image, hostToNetwork64, UInt64.toNat_ofNat_of_lt' hlt, ByteOrder.store_swapToNetwork]
    rfl

@[simp] theorem length_bytes (v : NetInt) : v.bytes.length = v.size :=
  length_beIntBytes v.size v.value

def decode (bytes : List Byte) : IntType → NetInt
  | .int8 => .int8 (UInt8.ofNat (order.load bytes)).toInt8
  | .int16 => .int16 (networkToHost16 order (.ofNat (order.load bytes))).toInt16
  | .int32 => .int32 (networkToHost32 order (.ofNat (order.load bytes))).toInt32
  | .int64 => .int64 (networkToHost64 order (.ofNat (order.load bytes))).toInt64

theorem load_bytes_lt (v : NetInt) : order.load v.bytes < 256 ^ v.size := by
  have hlt := order.load_lt v.bytes
  rwa [v.bytes_eq, List.length_reverse, length_leBytes, ← v.bytes_eq] at hlt

theorem swapToNetwork_load_bytes (v : NetInt) (h : v.word < 256 ^ v.size) :
    order.swapToNetwork v.size (order.load v.bytes) = v.word := by
  rw [order.swapToNetwork_load v.length_bytes, v.bytes_eq, List.reverse_reverse,
    ofLeBytes_leBytes h]

theorem decode_bytes (v : NetInt) : decode order v.bytes v.type = v := by
  have hlt := v.load_bytes_lt order
  cases v with
  | int8 x =>
    have hload : order.load (int8 x).bytes = x.toUInt8.toNat := by
      rw [bytes_eq]
      cases order <;> exact ofLeBytes_leBytes (n := 1) x.toUInt8.toNat_lt
    rw [type, decode, hload, UInt8.ofNat_toNat, Int8.toInt8_toUInt8]
  | int16 x =>
    have hswap := swapToNetwork_load_bytes order (int16 x) x.toUInt16.toNat_lt
    rw [size, word] at hswap
    rw [type, decode, networkToHost16, UInt16.toNat_ofNat_of_lt' hlt, hswap, UInt16.ofNat_toNat,
      Int16.toInt16_toUInt16]
  | int32 x =>
    have hswap := swapToNetwork_load_bytes order (int32 x) x.toUInt32.toNat_lt
    rw [size, word] at hswap
    rw [type, decode, networkToHost32, UInt32.toNat_ofNat_of_lt' hlt, hswap, UInt32.ofNat_toNat,
      Int32.toInt32_toUInt32]
  | int64 x =>
    have hswap := swapToNetwork_load_bytes order (int64 x) x.toUInt64.toNat_lt
    rw [size, word] at hswap
    rw [type, decode, networkToHost64, UInt64.toNat_ofNat_of_lt' hlt, hswap, UInt64.ofNat_toNat,
      Int64.toInt64_toUInt64]

end NetInt

namespace Buffer

variable {order : ByteOrder} {b : Buffer} {q : List Byte}

theorem appendNetInt_eq (b : Buffer) (v : NetInt) : b.appendNetInt order v = b.append v.bytes := by
  rw [← v.image_eq order]
  cases v <;> rfl

theorem prependNetInt_eq (b : Buffer) (v : NetInt) :
    b.prependNetInt order v = b.prepend v.bytes := by
  rw [← v.image_eq order]
  cases v <;> rfl

theorem peekNetInt_eq (b : Buffer) (v : NetInt) (h : v.size ≤ b.readableBytes) :
    b.peekNetInt order v.type =
      .ok (NetInt.decode order (slice b.buffer b.peek (b.peek + v.size)) v.type) := by
  cases v with
  | int8 x =>
    have hn : 1 ≤ b.readableBytes := h
    simp only [NetInt.type, peekNetInt, peekInt8, check_bind_of_true hn]
    rfl
  | int16 x =>
    have hn : 2 ≤ b.readableBytes := h
    simp only [NetInt.type, peekNetInt, peekInt16, check_bind_of_true hn]
    rfl
  | int32 x =>
    have hn : 4 ≤ b.readableBytes := h
    simp only [NetInt.type, peekNetInt, peekInt32, check_bind_of_true hn]
    rfl
  | int64 x =>
    have hn : 8 ≤ b.readableBytes := h
    simp only [NetInt.type, peekNetInt, peekInt64, check_bind_of_true hn]
    rfl

theorem readNetInt_eq (b : Buffer) (v : NetInt) :
    b.readNetInt order v.type = (do
      let result ← b.peekNetInt order v.type
      let b ← b.retrieve v.size
      return (b, result)) := by
  cases v with
  | int8 x =>
    simp only [NetInt.type, readNetInt, peekNetInt, readInt8, retrieveInt8, map_bind, bind_map_left,
      map_pure, NetInt.size]
  | int16 x =>
    simp only [NetInt.type, readNetInt, peekNetInt, readInt16, retrieveInt16, map_bind,
      bind_map_left, map_pure, NetInt.size]
  | int32 x =>
    simp only [NetInt.type, readNetInt, peekNetInt, readInt32, retrieveInt32, map_bind,
      bind_map_left, map_pure, NetInt.size]
  | int64 x =>
    simp only [NetInt.type, readNetInt, peekNetInt, readInt64, retrieveInt64, map_bind,
      bind_map_left, map_pure, NetInt.size]

theorem peekNetInt_represents (v : NetInt) (h : b.Represents (v.bytes ++ q)) :
    b.peekNetInt order v.type = .ok v := by
  have hlen := h.length
  rw [List.length_append, v.length_bytes] at hlen
  have hs : slice b.buffer b.peek (b.peek + v.size) = v.bytes := by
    have htake : b.content.take v.size = slice b.buffer b.peek (b.peek + v.size) := by
      have hreader := h.1.reader_le
      simp only [readableBytes] at hlen
      rw [content, take_slice (by omega), peek]
    rw [← htake, h.2, ← v.length_bytes, List.take_left]
  rw [peekNetInt_eq b v (by omega), hs, NetInt.decode_bytes]

theorem readNetInt_represents (v : NetInt) (h : b.Represents (v.bytes ++ q)) :
    Yields (b.readNetInt order v.type) fun r => r.1.Represents q ∧ r.2 = v := by
  have hret : Yields (b.retrieve v.size) (Represents · q) := by
    have hle : v.size ≤ (v.bytes ++ q).length := by simp
    have hr := retrieve_represents h hle
    rwa [← v.length_bytes, List.drop_left, v.length_bytes] at hr
  have hpeek : Yields (b.peekNetInt order v.type) (· = v) :=
    ⟨v, peekNetInt_represents v h, rfl⟩
  rw [readNetInt_eq]
  refine yields_bind hpeek ?_
  rintro result rfl
  exact yields_bind hret fun b' hb' => yields_pure.mpr ⟨hb', rfl⟩

theorem appendNetInt_represents (v : NetInt) (h : b.Represents q) :
    Yields (b.appendNetInt order v) (Represents · (q ++ v.bytes)) := by
  rw [appendNetInt_eq]
  exact append_represents h v.bytes

theorem appendNetInts_represents (values : List NetInt) (h : b.Represents q) :
    Yields (run (appendNetInt order) b values)
      (Represents · (q ++ values.flatMap NetInt.bytes)) := by
  induction values generalizing b q with
  | nil => simpa using h
  | cons v values ih =>
    refine yields_bind (appendNetInt_represents v h) fun b' hb' => ?_
    have htail := ih hb'
    rwa [List.append_assoc] at htail

theorem readNetInts_represents (values : List NetInt)
    (h : b.Represents (values.flatMap NetInt.bytes ++ q)) :
    Yields (b.readNetInts order (values.map NetInt.type)) fun r =>
      r.1.Represents q ∧ r.2 = values.map fun v => (v, v) := by
  induction values generalizing b with
  | nil => exact yields_pure.mpr ⟨h, rfl⟩
  | cons v values ih =>
    rw [List.flatMap_cons, List.append_assoc] at h
    have hpeek : Yields (b.peekNetInt order v.type) (· = v) :=
      ⟨v, peekNetInt_represents v h, rfl⟩
    refine yields_bind hpeek ?_
    rintro peeked rfl
    refine yields_bind (readNetInt_represents peeked h) ?_
    rintro ⟨b', value⟩ ⟨hb', rfl⟩
    refine yields_bind (ih hb') ?_
    rintro ⟨b'', read⟩ ⟨hb'', rfl⟩
    exact yields_pure.mpr ⟨hb'', rfl⟩

/-- What is appended is the integers in network order, and reading gives them back. What is
prepended is read back first. -/
theorem network_ints_round_trip (order : ByteOrder) (b : Buffer) (hb : b.Inv)
    (values : List NetInt) :
    (Yields (run (appendNetInt order) b values) fun b' =>
      b'.Represents (b.content ++ values.flatMap NetInt.bytes) ∧
        Yields (b'.retrieve b.content.length) fun b'' =>
          Yields (b''.readNetInts order (values.map NetInt.type)) fun r =>
            r.1.Represents [] ∧ r.2 = values.map fun v => (v, v)) ∧
      ∀ v : NetInt, v.size ≤ b.prependableBytes → Yields (b.prependNetInt order v) fun b' =>
        b'.Represents (v.bytes ++ b.content) ∧
          Yields (b'.readNetInt order v.type) fun r => r.1.Represents b.content ∧ r.2 = v := by
  constructor
  · refine (appendNetInts_represents values hb.represents).mono fun b' hb' => ⟨hb', ?_⟩
    have hle : b.content.length ≤ (b.content ++ values.flatMap NetInt.bytes).length := by simp
    have hret := retrieve_represents hb' hle
    rw [List.drop_left] at hret
    refine hret.mono fun b'' hb'' => readNetInts_represents values ?_
    rwa [List.append_nil]
  · intro v hv
    have hpre : Yields (b.prependNetInt order v) (Represents · (v.bytes ++ b.content)) := by
      rw [prependNetInt_eq]
      exact prepend_represents hb.represents (v.length_bytes ▸ hv)
    exact hpre.mono fun b' hb' => ⟨hb', readNetInt_represents v hb'⟩

/-- The vector has to grow, and `-2` is stored as `ff fe`. -/
theorem network_ints_round_trip_growing :
    Yields (run (appendNetInt .little) ⟨List.replicate 10 7, 8, 10⟩ [.int16 (-2), .int8 5])
      fun b' => b'.content = [7, 7, 255, 254, 5] ∧ Yields (b'.retrieve 2) fun b'' =>
        Yields (b''.readNetInts .little [.int16, .int8]) fun r =>
          r.1.content = [] ∧ r.2 = [(.int16 (-2), .int16 (-2)), (.int8 5, .int8 5)] := by
  have h := network_ints_round_trip .little ⟨List.replicate 10 7, 8, 10⟩
    ⟨by decide, by decide, by decide⟩ [.int16 (-2), .int8 5]
  exact h.1.mono fun b' hb' => ⟨hb'.1.2.trans (by decide), hb'.2.mono fun b'' hb'' =>
    hb''.mono fun r hr => ⟨hr.1.2, hr.2⟩⟩

end Buffer

end Dwater
