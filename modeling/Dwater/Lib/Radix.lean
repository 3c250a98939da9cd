import Mathlib.Algebra.Order.Group.Int
import Mathlib.Data.Nat.Digits.Defs
import Mathlib.Tactic.Common

/-! # Numbers as bytes

A number below `256 ^ n` is a list of `n` bytes, and a list of `n` bytes is a number below
`256 ^ n`. `leBytes` lists them from the least significant one, and the bytes of an
integer are those of its remainder, in two's complement.
-/

set_option autoImplicit false
namespace Radix

variable {n v : ℕ} {bytes : List UInt8}

/-- The last `n` bytes of a number, the least significant one first. -/
def leBytes : ℕ → ℕ → List UInt8
  | 0, _ => []
  | n + 1, v => UInt8.ofNat v :: leBytes n (v / 256)

def ofLeBytes (bytes : List UInt8) : ℕ := Nat.ofDigits 256 (bytes.map UInt8.toNat)

def intByte (z : ℤ) (i : ℕ) : UInt8 := UInt8.ofNat (z / 256 ^ i % 256).toNat

/-- The last `n` bytes of an integer in two's complement, the most significant one first. -/
def beIntBytes (n : ℕ) (z : ℤ) : List UInt8 := ((List.range n).map (intByte z)).reverse

@[simp] theorem length_leBytes (n v : ℕ) : (leBytes n v).length = n := by
  induction n generalizing v with
  | zero => rfl
  | succ n ih => rw [leBytes, List.length_cons, ih]

@[simp] theorem length_beIntBytes (n : ℕ) (z : ℤ) : (beIntBytes n z).length = n := by
  simp [beIntBytes]

theorem ofLeBytes_cons (b : UInt8) (bytes : List UInt8) :
    ofLeBytes (b :: bytes) = b.toNat + 256 * ofLeBytes bytes := by
  rw [ofLeBytes, List.map_cons, Nat.ofDigits_cons]
  rfl

theorem ofLeBytes_lt (bytes : List UInt8) : ofLeBytes bytes < 256 ^ bytes.length := by
  induction bytes with
  | nil => simp [ofLeBytes]
  | cons b bytes ih =>
    have hb := b.toNat_lt
    rw [ofLeBytes_cons, List.length_cons, pow_succ]
    omega

theorem ofLeBytes_leBytes (h : v < 256 ^ n) : ofLeBytes (leBytes n v) = v := by
  induction n generalizing v with
  | zero =>
    rw [pow_zero] at h
    obtain rfl : v = 0 := by omega
    rfl
  | succ n ih =>
    rw [pow_succ] at h
    rw [leBytes, ofLeBytes_cons, ih (by omega), UInt8.toNat_ofNat']
    omega

theorem leBytes_ofLeBytes (h : bytes.length = n) : leBytes n (ofLeBytes bytes) = bytes := by
  subst h
  induction bytes with
  | nil => rfl
  | cons b bytes ih =>
    have hb := b.toNat_lt
    have hdiv : (b.toNat + 256 * ofLeBytes bytes) / 256 = ofLeBytes bytes := by omega
    have hmod : UInt8.ofNat (b.toNat + 256 * ofLeBytes bytes) = b := by
      apply UInt8.toNat_inj.mp
      rw [UInt8.toNat_ofNat']
      omega
    rw [List.length_cons, ofLeBytes_cons, leBytes, hdiv, hmod, ih]

theorem emod_mul_ediv (z m : ℤ) : z % (256 * m) / 256 = z / 256 % m := by
  have hquot : z / (256 * m) = z / 256 / m := (Int.ediv_ediv_of_nonneg (by decide)).symm
  have hdiv := Int.mul_ediv_add_emod z 256
  calc z % (256 * m) / 256
      = (z % 256 + 256 * (z / 256 - m * (z / 256 / m))) / 256 := by
        rw [Int.emod_def, hquot]
        congr 1
        linarith
    _ = z / 256 - m * (z / 256 / m) := by
        rw [Int.add_mul_ediv_left _ _ (by decide), Int.ediv_eq_zero_of_lt]
        · exact Int.zero_add _
        · exact Int.emod_nonneg z (by decide)
        · exact Int.emod_lt_of_pos z (by decide)
    _ = z / 256 % m := (Int.emod_def _ _).symm

theorem leBytes_emod (n : ℕ) (z : ℤ) :
    leBytes n (z % 256 ^ n).toNat = (List.range n).map (intByte z) := by
  induction n generalizing z with
  | zero => rfl
  | succ n ih =>
    have hpow : (256 : ℤ) ^ (n + 1) = 256 * 256 ^ n := by rw [pow_succ, mul_comm]
    have hpos : (0 : ℤ) < 256 * 256 ^ n := by positivity
    have hhead : UInt8.ofNat (z % 256 ^ (n + 1)).toNat = intByte z 0 := by
      rw [intByte, pow_zero, Int.ediv_one, ← UInt8.toNat_inj, UInt8.toNat_ofNat',
        UInt8.toNat_ofNat', hpow]
      have hmod : z % (256 * 256 ^ n) % 256 = z % 256 :=
        Int.emod_emod_of_dvd z (Dvd.intro _ rfl)
      have hnonneg := Int.emod_nonneg z hpos.ne'
      omega
    have htail : (z % 256 ^ (n + 1)).toNat / 256 = (z / 256 % 256 ^ n).toNat := by
      rw [← emod_mul_ediv, ← hpow]
      have hnonneg := Int.emod_nonneg z (hpow ▸ hpos.ne')
      omega
    rw [leBytes, hhead, htail, ih, List.range_succ_eq_map, List.map_cons, List.map_map]
    congr 1
    refine List.map_congr_left fun i _ => ?_
    rw [Function.comp_apply, intByte, intByte, pow_succ', Int.ediv_ediv_of_nonneg (by decide)]

/-- The unsigned reading of a word is the remainder of the signed one. -/
theorem toNat_eq_toInt_emod {w : ℕ} (b : BitVec w) :
    b.toNat = (b.toInt % ((2 ^ w : ℕ) : ℤ)).toNat := by
  have hlt : (b.toNat : ℤ) < ((2 ^ w : ℕ) : ℤ) := Int.ofNat_lt.mpr b.isLt
  rw [BitVec.toInt_eq_toNat_bmod, Int.bmod_emod, Int.emod_eq_of_lt (Int.natCast_nonneg _) hlt,
    Int.toNat_natCast]

theorem leBytes_toNat {w n : ℕ} (b : BitVec w) (hw : 2 ^ w = 256 ^ n) :
    (leBytes n b.toNat).reverse = beIntBytes n b.toInt := by
  rw [toNat_eq_toInt_emod, hw, Nat.cast_pow, beIntBytes, ← leBytes_emod]
  rfl

end Radix
