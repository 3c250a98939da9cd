import Mathlib.Algebra.Ring.Int.Defs
import Mathlib.Data.Int.Notation
import Mathlib.Tactic.Common

/-! # Formatted numbers

The decimal numerals that `snprintf` and `strftime` write, as lists of characters.
-/

set_option autoImplicit false
namespace Dwater

/-- What `snprintf` leaves of a text in a buffer. -/
def snprintf (size : ℕ) (text : List Char) : List Char := text.take (size - 1)

/-- `%d`. -/
def formatInt (n : ℤ) : List Char := (toString n).toList

/-- `%02d`, for a number that is not negative. -/
def formatTwo (n : ℤ) : List Char := if n < 10 then '0' :: formatInt n else formatInt n

/-- `%4d` and, for a number that is not negative, `%06d`: at least `w` characters. -/
def formatPadded (c : Char) (w : ℕ) (n : ℤ) : List Char :=
  List.replicate (w - (formatInt n).length) c ++ formatInt n

theorem formatInt_natCast (n : ℕ) : formatInt n = Nat.toDigits 10 n := Nat.toList_repr

theorem toDigits_injective : Function.Injective (Nat.toDigits 10) := by
  intro m n h
  rw [← Nat.ofDigitChars_ten_toDigits (n := m), h, Nat.ofDigitChars_ten_toDigits]

theorem formatInt_inj {m n : ℤ} (hm : 0 ≤ m) (hn : 0 ≤ n) (h : formatInt m = formatInt n) :
    m = n := by
  obtain ⟨m, rfl⟩ := Int.eq_ofNat_of_zero_le hm
  obtain ⟨n, rfl⟩ := Int.eq_ofNat_of_zero_le hn
  rw [formatInt_natCast, formatInt_natCast] at h
  rw [toDigits_injective h]

theorem length_formatInt {n : ℤ} (h : 1000 ≤ n) (h' : n ≤ 9999) : (formatInt n).length = 4 := by
  obtain ⟨n, rfl⟩ := Int.eq_ofNat_of_zero_le (show 0 ≤ n by omega)
  have hle : (Nat.toDigits 10 n).length ≤ 4 :=
    (Nat.length_toDigits_le_iff (by decide) (by decide)).mpr (by omega)
  have hgt : ¬ (Nat.toDigits 10 n).length ≤ 3 := by
    rw [Nat.length_toDigits_le_iff (by decide) (by decide)]
    omega
  rw [formatInt_natCast]
  omega

theorem formatTwo_digits : ∀ n < 100, (formatTwo (n : ℕ)).length = 2 ∧
    Nat.ofDigitChars 10 (formatTwo (n : ℕ)) 0 = n := by
  decide +kernel

theorem length_formatTwo {n : ℤ} (h : 0 ≤ n) (h' : n < 100) : (formatTwo n).length = 2 := by
  obtain ⟨n, rfl⟩ := Int.eq_ofNat_of_zero_le h
  exact (formatTwo_digits n (by omega)).1

theorem formatTwo_inj {m n : ℤ} (hm : 0 ≤ m) (hm' : m < 100) (hn : 0 ≤ n) (hn' : n < 100)
    (h : formatTwo m = formatTwo n) : m = n := by
  obtain ⟨m, rfl⟩ := Int.eq_ofNat_of_zero_le hm
  obtain ⟨n, rfl⟩ := Int.eq_ofNat_of_zero_le hn
  rw [← (formatTwo_digits m (by omega)).2, h, (formatTwo_digits n (by omega)).2]

theorem length_formatInt_le {n : ℤ} {w : ℕ} (h : 0 ≤ n) (hw : 0 < w) :
    (formatInt n).length ≤ w ↔ n < 10 ^ w := by
  obtain ⟨n, rfl⟩ := Int.eq_ofNat_of_zero_le h
  rw [formatInt_natCast, Nat.length_toDigits_le_iff (by decide) hw]
  norm_cast

theorem length_formatPadded {c : Char} {n : ℤ} {w : ℕ} (h : 0 ≤ n) (hw : 0 < w) (h' : n < 10 ^ w) :
    (formatPadded c w n).length = w := by
  have hle := (length_formatInt_le h hw).mpr h'
  rw [formatPadded, List.length_append, List.length_replicate]
  omega

theorem formatPadded_of_le {c : Char} {n : ℤ} {w : ℕ} (h : w ≤ (formatInt n).length) :
    formatPadded c w n = formatInt n := by
  rw [formatPadded, Nat.sub_eq_zero_of_le h, List.replicate_zero, List.nil_append]

theorem formatTwo_eq {n : ℤ} (h : 0 ≤ n) : formatTwo n = formatPadded '0' 2 n := by
  unfold formatTwo
  have hone : (formatInt n).length ≤ 1 ↔ n < 10 := by
    simpa using length_formatInt_le h Nat.zero_lt_one
  split
  · next hlt =>
    have hpos : 0 < (formatInt n).length := by
      obtain ⟨n, rfl⟩ := Int.eq_ofNat_of_zero_le h
      rw [formatInt_natCast]
      exact Nat.length_toDigits_pos
    have hlen : (formatInt n).length = 1 := by omega
    rw [formatPadded, hlen]
    rfl
  · next hge => exact (formatPadded_of_le (by omega)).symm

theorem inj_formatTwo {m n : ℤ} {xs ys : List Char} (hm : 0 ≤ m ∧ m < 100) (hn : 0 ≤ n ∧ n < 100)
    (h : formatTwo m ++ xs = formatTwo n ++ ys) : m = n ∧ xs = ys := by
  obtain ⟨htwo, hrest⟩ := List.append_inj h (by
    rw [length_formatTwo hm.1 hm.2, length_formatTwo hn.1 hn.2])
  exact ⟨formatTwo_inj hm.1 hm.2 hn.1 hn.2 htwo, hrest⟩

end Dwater
