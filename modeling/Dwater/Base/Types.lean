import Mathlib.Algebra.Group.Int.Defs
import Mathlib.Algebra.GroupWithZero.Nat
import Mathlib.Data.Int.Notation
import Dwater.Lib.Fallible

/-! # Bytes, string pieces and faults

The program stops at a failed `assert`; its behaviour is lost once it reads or writes
outside an object, through a null pointer or through a pointer to a dead object, or once signed
arithmetic overflows, a loop may never end, a message logged as fatal aborts, and a vector cannot
grow beyond its `max_size()`. A fault names the source file and the line where that happens.
-/

set_option autoImplicit false
namespace Dwater

/-- A `char` of the source, as the byte it stores. -/
abbrev Byte := UInt8

def ascii (cs : List Char) : List Byte := cs.map fun c => UInt8.ofNat c.toNat

inductive SourceFile
  | buffer_h | channel_cc | tcp_connection_cc | tcp_server_cc | event_loop_cc
  | http_request_h | http_context_cc | timer_queue_cc | log_stream_h | async_logging_cc
  | event_loop_thread_cc | acceptor_cc | connector_cc | tcp_client_cc
  | epoll_poller_cc | poll_poller_cc | time_zone_cc | thread_pool_cc
  | bounded_blocking_queue_h | log_file_cc | log_stream_cc | logging_cc | string_piece_h | atomic_h
  deriving DecidableEq, Repr

inductive Fault
  | assertion (file : SourceFile) (line : ℕ)
  | outOfBounds (file : SourceFile) (line : ℕ)
  | useAfterFree (file : SourceFile) (line : ℕ)
  | nullPointer (file : SourceFile) (line : ℕ)
  | endlessLoop (file : SourceFile) (line : ℕ)
  | fatal (file : SourceFile) (line : ℕ)
  | overflow (file : SourceFile) (line : ℕ)
  | lengthError (file : SourceFile) (line : ℕ)
  deriving DecidableEq, Repr

/-- The conversion of an `int` to `size_t`. -/
def toSizeT (n : ℤ) : ℕ := (n % 2 ^ 64).toNat

/-- The conversion of a `size_t` to `int`. -/
def toInt (n : ℕ) : ℤ := (n : ℤ).bmod (2 ^ 32)

/-- A pointer, given by the bytes that can be read from it, and an `int` length. -/
structure StringPiece where
  ptr : List Byte
  length : ℤ
  deriving DecidableEq, Repr

theorem toInt_of_lt {n : ℕ} (h : n < 2 ^ 31) : toInt n = n := by
  have h' : (n : ℤ) < 2147483648 := by omega
  exact Int.bmod_eq_of_le (by omega) (by omega)

theorem bmod_natCast_le (n m : ℕ) : (n : ℤ).bmod m ≤ n := by
  have hmod : ((n % m : ℕ) : ℤ) ≤ n := Int.ofNat_le.mpr (Nat.mod_le n m)
  rw [Int.bmod_eq_emod, ← Int.natCast_emod]
  split <;> omega

theorem toInt_le (n : ℕ) : toInt n ≤ n := bmod_natCast_le n (2 ^ 32)

theorem toInt_lt (n : ℕ) : toInt n < 2 ^ 31 := by
  have hlt : toInt n < (2 ^ 32 + 1) / 2 := Int.bmod_lt (by decide)
  omega

theorem natCast_toSizeT {n : ℤ} (h : 0 ≤ n) (hlt : n < 2 ^ 31) : (toSizeT n : ℤ) = n := by
  rw [toSizeT, Int.emod_eq_of_lt h (by omega), Int.toNat_of_nonneg h]

theorem toInt_eq_iff {n : ℕ} : toInt n = n ↔ n < 2 ^ 31 := by
  refine ⟨fun h => ?_, toInt_of_lt⟩
  have hlt := toInt_lt n
  omega

end Dwater
