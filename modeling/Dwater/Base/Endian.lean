import Dwater.Base.Types
import Dwater.Lib.Radix

/-! # Byte order

The memory of an integer on a host of either byte order, and the conversions between that
order and the order of the network, which has the most significant byte first.
-/

set_option autoImplicit false
namespace Dwater

open Radix

/-- The order of the bytes of an integer in the memory of the host. -/
inductive ByteOrder
  | little | big
  deriving DecidableEq, Repr

namespace ByteOrder

/-- The memory of an unsigned integer of `n` bytes. -/
def store (n v : ℕ) : ByteOrder → List Byte
  | little => leBytes n v
  | big => (leBytes n v).reverse

/-- The unsigned integer that these bytes are the memory of. -/
def load (bytes : List Byte) : ByteOrder → ℕ
  | little => ofLeBytes bytes
  | big => ofLeBytes bytes.reverse

/-- `htobe16`, `htobe32`, `htobe64` and their inverses: the bytes of a little-endian host are
swapped. -/
def swapToNetwork (n v : ℕ) : ByteOrder → ℕ
  | little => ofLeBytes (leBytes n v).reverse
  | big => v

variable {n v : ℕ}

theorem swapToNetwork_lt (order : ByteOrder) (h : v < 256 ^ n) :
    order.swapToNetwork n v < 256 ^ n := by
  cases order with
  | little => simpa [swapToNetwork] using ofLeBytes_lt (leBytes n v).reverse
  | big => exact h

theorem store_swapToNetwork (order : ByteOrder) (n v : ℕ) :
    order.store n (order.swapToNetwork n v) = (leBytes n v).reverse := by
  cases order with
  | little => exact leBytes_ofLeBytes (by simp)
  | big => rfl

theorem load_lt (order : ByteOrder) (bytes : List Byte) :
    order.load bytes < 256 ^ bytes.length := by
  cases order with
  | little => exact ofLeBytes_lt bytes
  | big => simpa [load] using ofLeBytes_lt bytes.reverse

theorem swapToNetwork_load (order : ByteOrder) {bytes : List Byte} (h : bytes.length = n) :
    order.swapToNetwork n (order.load bytes) = ofLeBytes bytes.reverse := by
  cases order with
  | little =>
    change ofLeBytes (leBytes n (ofLeBytes bytes)).reverse = ofLeBytes bytes.reverse
    rw [leBytes_ofLeBytes h]
  | big => rfl

end ByteOrder

end Dwater
