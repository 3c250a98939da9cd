import Mathlib.Order.Lattice
import Mathlib.Data.Int.Order.Basic
import Dwater.Base.Types

/-! # Time stamps

A time stamp counts microseconds since the epoch in a signed 64-bit integer; the sum
of a time stamp and a duration wraps around.
-/

set_option autoImplicit false
namespace Dwater

@[ext]
structure Timestamp where
  microSecondsSinceEpoch : Int64
  deriving DecidableEq, Repr

/--
A `double` number of seconds, by what the program computes from it: the test `> 0.0` and
`static_cast<int64_t>(seconds * kmicro_seconds_per_second)`.
-/
structure Seconds where
  positive : Bool
  microSeconds : Int64
  deriving DecidableEq, Repr

namespace Timestamp

def kmicroSecondsPerSecond : Int64 := 1000 * 1000

def invalid : Timestamp := ⟨0⟩

def valid (t : Timestamp) : Bool := t.microSecondsSinceEpoch > 0

def addTime (t : Timestamp) (seconds : Seconds) : Timestamp :=
  ⟨t.microSecondsSinceEpoch + seconds.microSeconds⟩

def micros (t : Timestamp) : ℤ := t.microSecondsSinceEpoch.toInt

theorem micros_injective : Function.Injective micros :=
  fun _ _ h => Timestamp.ext (Int64.toInt_inj.mp h)

instance : LinearOrder Timestamp := LinearOrder.lift' micros micros_injective

theorem lt_iff {s t : Timestamp} : s < t ↔ s.micros < t.micros := Iff.rfl

theorem le_iff {s t : Timestamp} : s ≤ t ↔ s.micros ≤ t.micros := Iff.rfl

theorem valid_iff {t : Timestamp} : t.valid = true ↔ 0 < t.micros := by
  simp [valid, micros, Int64.lt_iff_toInt_lt]

theorem micros_addTime {t : Timestamp} {seconds : Seconds}
    (h : 0 < t.micros + seconds.microSeconds.toInt)
    (h' : t.micros + seconds.microSeconds.toInt < 2 ^ 63) :
    (t.addTime seconds).micros = t.micros + seconds.microSeconds.toInt := by
  have h63 : (2 : ℤ) ^ 63 = 9223372036854775808 := rfl
  simp only [micros, addTime, Int64.toInt_add] at *
  exact Int.bmod_eq_of_le (by omega) (by omega)

end Timestamp

end Dwater
