import Mathlib.Tactic.Common

/-! # Windows of a list

`slice xs i j` reads the positions from `i` up to `j`, `overwrite xs i ys` stores
`ys` from position `i` on, and `resize xs n a` cuts or pads to length `n`. The
lemmas say how reading a window meets a store: before it, inside it and after it.
-/

set_option autoImplicit false
namespace Window

variable {α : Type*} {xs ys : List α} {i j k n : ℕ} {a : α}

/-- The entries from position `i` up to position `j`, which is excluded. -/
def slice (xs : List α) (i j : ℕ) : List α := (xs.take j).drop i

def overwrite (xs : List α) (i : ℕ) (ys : List α) : List α :=
  xs.take i ++ ys ++ xs.drop (i + ys.length)

def resize (xs : List α) (n : ℕ) (a : α) : List α :=
  xs.take n ++ List.replicate (n - xs.length) a

@[simp] theorem slice_self : slice xs i i = [] := by simp [slice]

theorem length_slice (h : j ≤ xs.length) : (slice xs i j).length = j - i := by
  simp [slice, Nat.min_eq_left h]

theorem length_overwrite (h : i + ys.length ≤ xs.length) :
    (overwrite xs i ys).length = xs.length := by
  simp only [overwrite, List.length_append, List.length_take, List.length_drop]
  omega

theorem length_resize (h : xs.length ≤ n) : (resize xs n a).length = n := by
  simp only [resize, List.length_append, List.length_take, List.length_replicate]
  omega

theorem slice_append_slice (hij : i ≤ j) (hjk : j ≤ k) :
    slice xs i j ++ slice xs j k = slice xs i k := by
  apply List.ext_getElem?
  intro n
  simp only [slice, List.getElem?_append, List.length_drop, List.length_take,
    List.getElem?_drop, List.getElem?_take]
  split
  · rw [if_pos (by omega), if_pos (by omega)]
  · by_cases hj : j ≤ xs.length
    · rw [Nat.min_eq_left hj, show j + (n - (j - i)) = i + n by omega]
    · rw [List.getElem?_eq_none (by omega), List.getElem?_eq_none (by omega)]
      simp

theorem drop_slice (n : ℕ) : (slice xs i j).drop n = slice xs (i + n) j := by
  simp [slice]

theorem take_slice (h : i + n ≤ j) : (slice xs i j).take n = slice xs i (i + n) := by
  simp only [slice, List.take_drop, List.take_take, Nat.min_eq_left h]

theorem slice_overwrite_before (h : j ≤ i) (hi : i ≤ xs.length) :
    slice (overwrite xs i ys) k j = slice xs k j := by
  have : (overwrite xs i ys).take j = xs.take j := by
    simp [overwrite, List.take_append, List.take_take, Nat.min_eq_left h, Nat.min_eq_left hi,
      Nat.sub_eq_zero_of_le h]
  simp [slice, this]

theorem slice_overwrite_self (h : i ≤ xs.length) :
    slice (overwrite xs i ys) i (i + ys.length) = ys := by
  have hl : (xs.take i).length = i := by simp [Nat.min_eq_left h]
  simp only [slice, overwrite, List.append_assoc]
  rw [List.take_append, List.drop_append, hl]
  simp [List.take_take, Nat.min_eq_left h]

theorem slice_overwrite_after (h : i + ys.length ≤ j) (hi : i + ys.length ≤ xs.length) :
    slice (overwrite xs i ys) j k = slice xs j k := by
  have hd : (overwrite xs i ys).drop j = xs.drop j := by
    have hl : (xs.take i ++ ys).length = i + ys.length := by
      simp only [List.length_append, List.length_take]; omega
    rw [overwrite, List.drop_append, hl, List.drop_eq_nil_of_le (by omega), List.drop_drop,
      List.nil_append]
    congr 1
    omega
  simp only [slice, List.drop_take, hd]

theorem slice_resize (h : j ≤ xs.length) (hn : xs.length ≤ n) :
    slice (resize xs n a) i j = slice xs i j := by
  have : (resize xs n a).take j = xs.take j := by
    simp [resize, List.take_append, List.take_of_length_le hn, Nat.sub_eq_zero_of_le h]
  simp [slice, this]

end Window
