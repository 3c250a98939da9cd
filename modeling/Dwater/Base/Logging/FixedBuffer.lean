import Mathlib.Data.List.Basic
import Dwater.Base.Types

/-! # Fixed buffers

A fixed buffer holds the bytes appended to it in an array of `SIZE` bytes. `Avail()`
returns the size of the array, whatever has been written, so `Append` may write past its
end; a model of the buffer ends there.
-/

set_option autoImplicit false
namespace Dwater

def kLargeBuffer : ℕ := 4000 * 1000

/-- `FixedBuffer<SIZE>`, by the bytes from `data_` to `curr_`. -/
structure FixedBuffer (size : ℕ) where
  content : List Byte
  fits : content.length ≤ size
  deriving DecidableEq, Repr

namespace FixedBuffer

variable {size : ℕ}

def new : FixedBuffer size := ⟨[], Nat.zero_le size⟩

def length (b : FixedBuffer size) : ℕ := b.content.length

def avail (_ : FixedBuffer size) : ℕ := size

def append (b : FixedBuffer size) (buf : List Byte) : Except Fault (FixedBuffer size) :=
  if b.avail > buf.length then
    if h : (b.content ++ buf).length ≤ size then .ok ⟨b.content ++ buf, h⟩
    else .error (.outOfBounds .log_stream_h 45)
  else .ok b

theorem append_eq (b : FixedBuffer size) {buf : List Byte} (hlt : buf.length < size)
    (h : (b.content ++ buf).length ≤ size) : b.append buf = .ok ⟨b.content ++ buf, h⟩ := by
  simp only [append, avail, gt_iff_lt, if_pos hlt, dif_pos h]

theorem append_eq_self (b : FixedBuffer size) {buf : List Byte} (h : ¬ buf.length < size) :
    b.append buf = .ok b := by
  simp only [append, avail, gt_iff_lt, if_neg h]

theorem append_overruns (b : FixedBuffer size) {buf : List Byte} (hlt : buf.length < size)
    (h : ¬ (b.content ++ buf).length ≤ size) :
    b.append buf = .error (.outOfBounds .log_stream_h 45) := by
  simp only [append, avail, gt_iff_lt, if_pos hlt, dif_neg h]

end FixedBuffer

end Dwater
