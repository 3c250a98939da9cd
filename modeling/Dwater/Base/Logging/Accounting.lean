import Dwater.Base.Logging.LogFile

/-! # What an append file has written

`Append` writes what is left of a line until the stream takes nothing more, and then it adds the
length of the whole line to `written_bytes_`. That is the number of bytes written exactly when
no repeated write has returned zero.
-/

set_option autoImplicit false
namespace Dwater

namespace AppendFile

/-- How much of a line of `len` bytes the first `k` calls of `fwrite_unlocked` take, each
of them for the rest of the line. -/
def progress (fwrite : ℕ → ℕ → ℕ) (len : ℕ) : ℕ → ℕ
  | 0 => 0
  | k + 1 => progress fwrite len k +
      min (fwrite k (len - progress fwrite len k)) (len - progress fwrite len k)

/-- A call after the first one returns zero, and something is left of the line. -/
def GivesUp (fwrite : ℕ → ℕ → ℕ) (len : ℕ) : Prop :=
  ∃ k, 0 < k ∧ progress fwrite len k < len ∧ fwrite k (len - progress fwrite len k) = 0

/-- `Append` adds a part from the beginning of the line to the stream, the whole line unless a call
after the first one returns zero, and `WriteBytes()` grows by the length of that part. -/
def Accounted (file : AppendFile) (fwrite : ℕ → ℕ → ℕ) (logline : List Byte) : Prop :=
  ∃ n ≤ logline.length, (file.append fwrite logline).content = file.content ++ logline.take n ∧
    (n = logline.length ∨ GivesUp fwrite logline.length) ∧
    (file.append fwrite logline).writtenBytes = file.writtenBytes + n

variable {fwrite : ℕ → ℕ → ℕ} {len k : ℕ}

theorem progress_le (fwrite : ℕ → ℕ → ℕ) (len k : ℕ) : progress fwrite len k ≤ len := by
  induction k with
  | zero => exact Nat.zero_le len
  | succ k ih =>
    rw [progress]
    omega

/-- A call has returned zero from the `k`-th one on, while something was left. -/
def StopsFrom (fwrite : ℕ → ℕ → ℕ) (len k : ℕ) : Prop :=
  ∃ j, k ≤ j ∧ progress fwrite len j < len ∧ fwrite j (len - progress fwrite len j) = 0

theorem stopsFrom_succ (h : fwrite k (len - progress fwrite len k) ≠ 0) :
    StopsFrom fwrite len (k + 1) ↔ StopsFrom fwrite len k := by
  constructor
  · rintro ⟨j, hj, hzero⟩
    exact ⟨j, by omega, hzero⟩
  · rintro ⟨j, hj, hlt, hzero⟩
    rcases Nat.lt_or_eq_of_le hj with hj | rfl
    · exact ⟨j, hj, hlt, hzero⟩
    · exact absurd hzero h

theorem progress_eq_of_done (h : progress fwrite len k = len) {j : ℕ} (hj : k ≤ j) :
    progress fwrite len j = len := by
  induction j, hj using Nat.le_induction with
  | base => exact h
  | succ j _ ih =>
    rw [progress, ih]
    omega

/-- The loop writes a part from the beginning of the rest of the line, and all of it exactly when no
call returns zero. -/
theorem writeRest_spec (fwrite : ℕ → ℕ → ℕ) (rest : List Byte)
    (h : rest.length = len - progress fwrite len k) :
    ∃ n ≤ rest.length, writeRest fwrite k rest = rest.take n ∧
      (n = rest.length ↔ ¬ StopsFrom fwrite len k) := by
  have hle := progress_le fwrite len k
  induction k, rest using writeRest.induct fwrite with
  | case1 k rest hnil =>
    have hdone : progress fwrite len k = len := by omega
    refine ⟨0, Nat.zero_le _, ?_, iff_of_true hnil.symm ?_⟩
    · rw [writeRest, if_pos hnil, List.take_zero]
    · rintro ⟨j, hj, hlt, -⟩
      exact absurd (progress_eq_of_done hdone hj) hlt.ne
  | case2 k rest hne x hx =>
    have hzero : fwrite k (len - progress fwrite len k) = 0 := by
      rw [← h]
      omega
    refine ⟨0, Nat.zero_le _, ?_, iff_of_false (Ne.symm hne) ?_⟩
    · rw [writeRest, if_neg hne]
      exact if_pos hx
    · exact fun hstop => hstop ⟨k, le_rfl, by omega, hzero⟩
  | case3 k rest hne x hx ih =>
    have hgrow : progress fwrite len (k + 1) = progress fwrite len k + x := by
      rw [progress, ← h]
    have hxle : x ≤ rest.length := Nat.min_le_right ..
    have hne' : fwrite k (len - progress fwrite len k) ≠ 0 := by
      rw [← h]
      omega
    obtain ⟨n, hn, heq, hiff⟩ := ih (by rw [List.length_drop, hgrow]; omega)
      (progress_le fwrite len (k + 1))
    rw [List.length_drop] at hn hiff
    refine ⟨x + n, by omega, ?_, ?_⟩
    · rw [writeRest, if_neg hne]
      refine (if_neg hx).trans ?_
      rw [heq, List.take_add]
    · rw [← stopsFrom_succ hne', ← hiff]
      omega

/-- `WriteBytes()` counts what has been written exactly when no repeated write returns zero. -/
theorem append_accounted_iff (file : AppendFile) (fwrite : ℕ → ℕ → ℕ) (logline : List Byte) :
    file.Accounted fwrite logline ↔ ¬ GivesUp fwrite logline.length := by
  set x := min (fwrite 0 logline.length) logline.length with hx
  have hfirst : progress fwrite logline.length 1 = x := by
    rw [progress, progress, Nat.zero_add, Nat.sub_zero]
  have hrest : (logline.drop x).length = logline.length - progress fwrite logline.length 1 := by
    rw [List.length_drop, hfirst]
  obtain ⟨n, hn, heq, hiff⟩ := writeRest_spec fwrite (logline.drop x) hrest
  rw [List.length_drop] at hn hiff
  have hcontent : (file.append fwrite logline).content = file.content ++ logline.take (x + n) := by
    simp only [append, ← hx]
    rw [heq, List.append_assoc, ← List.take_add]
  have hstops : GivesUp fwrite logline.length ↔ StopsFrom fwrite logline.length 1 := Iff.rfl
  rw [hstops, ← hiff]
  constructor
  · rintro ⟨m, hm, hsame, -, hwritten⟩
    have hm' : m = logline.length := by
      have hlen : file.writtenBytes + logline.length = file.writtenBytes + m := hwritten
      omega
    have htake := List.append_cancel_left (hcontent.symm.trans hsame)
    have hlen := congrArg List.length htake
    rw [List.length_take, List.length_take, hm'] at hlen
    omega
  · intro hall
    have hlen : x + n = logline.length := by omega
    refine ⟨logline.length, le_rfl, ?_, .inl rfl, rfl⟩
    rw [hcontent, hlen]

def oneByte (k _ : ℕ) : ℕ := if k = 0 then 1 else 0

theorem short_write_counted :
    ((new []).append oneByte (ascii ['a', 'b', 'c'])).content = ascii ['a'] ∧
      ((new []).append oneByte (ascii ['a', 'b', 'c'])).writtenBytes = 3 ∧
      ¬ (new []).Accounted oneByte (ascii ['a', 'b', 'c']) := by
  have hcontent : ((new []).append oneByte (ascii ['a', 'b', 'c'])).content = ascii ['a'] := by
    simp [append, new, writeRest, oneByte, ascii]
  refine ⟨hcontent, rfl, ?_⟩
  rintro ⟨n, -, hsame, -, hwritten⟩
  have hn : n = 3 := by
    have hlen : (3 : ℤ) = 0 + n := hwritten
    omega
  rw [hcontent, hn] at hsame
  exact absurd hsame (by decide)

end AppendFile

end Dwater
