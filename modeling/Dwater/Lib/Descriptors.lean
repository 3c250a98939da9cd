import Mathlib.Data.List.Range
import Mathlib.Logic.Function.Basic

/-! # Descriptor tables

A process numbers what it has opened and remembers who holds each number. A new number is the
lowest free one below a limit, and there is none when all of these are taken. A number is free
again once it is closed, whoever held it.
-/

set_option autoImplicit false

universe u

structure DescriptorTable (ω : Type u) where
  owner : ℕ → Option ω
  limit : ℕ

namespace DescriptorTable

variable {ω : Type u} {t : DescriptorTable ω} {fd k : ℕ} {o : ω}

def lowest (t : DescriptorTable ω) : Option ℕ :=
  (List.range t.limit).find? fun fd => (t.owner fd).isNone

def assign (t : DescriptorTable ω) (fd : ℕ) (o : ω) : DescriptorTable ω :=
  { t with owner := Function.update t.owner fd (some o) }

def allocate (t : DescriptorTable ω) (o : ω) : Option (ℕ × DescriptorTable ω) :=
  t.lowest.map fun fd => (fd, t.assign fd o)

def close (t : DescriptorTable ω) (fd : ℕ) : DescriptorTable ω :=
  { t with owner := Function.update t.owner fd none }

/-- `close` of what may be `-1`, which changes nothing. -/
def close? (t : DescriptorTable ω) : Option ℕ → DescriptorTable ω
  | some fd => t.close fd
  | none => t

@[simp] theorem limit_assign : (t.assign fd o).limit = t.limit := rfl

@[simp] theorem limit_close : (t.close fd).limit = t.limit := rfl

@[simp] theorem limit_close? {i : Option ℕ} : (t.close? i).limit = t.limit := by
  cases i <;> rfl

@[simp] theorem owner_assign_self : (t.assign fd o).owner fd = some o := Function.update_self ..

@[simp] theorem owner_close_self : (t.close fd).owner fd = none := Function.update_self ..

theorem owner_assign_of_ne (h : k ≠ fd) : (t.assign fd o).owner k = t.owner k :=
  Function.update_of_ne h ..

theorem owner_close_of_ne (h : k ≠ fd) : (t.close fd).owner k = t.owner k :=
  Function.update_of_ne h ..

theorem owner_close?_of_ne {i : Option ℕ} (h : i ≠ some k) :
    (t.close? i).owner k = t.owner k := by
  cases i with
  | none => rfl
  | some fd => exact owner_close_of_ne fun hk => h (congrArg some hk.symm)

theorem lowest_eq_none_iff : t.lowest = none ↔ ∀ fd < t.limit, t.owner fd ≠ none := by
  simp [lowest, Option.ne_none_iff_isSome]

theorem lowest_ne_none (hlt : fd < t.limit) (hfree : t.owner fd = none) : t.lowest ≠ none :=
  fun h => lowest_eq_none_iff.mp h fd hlt hfree

theorem owner_of_lowest (h : t.lowest = some fd) : t.owner fd = none := by
  have hfree := List.find?_some h
  simpa using hfree

theorem lt_of_lowest (h : t.lowest = some fd) : fd < t.limit :=
  List.mem_range.mp (List.mem_of_find?_eq_some h)

theorem allocate_eq_none_iff : t.allocate o = none ↔ t.lowest = none := by
  simp [allocate]

theorem allocate_eq_some {t' : DescriptorTable ω} (h : t.allocate o = some (fd, t')) :
    t.lowest = some fd ∧ t' = t.assign fd o := by
  obtain ⟨k, hk, heq⟩ := Option.map_eq_some_iff.mp h
  cases heq
  exact ⟨hk, rfl⟩

theorem lowest_close_ne_none (h : t.lowest ≠ none) : (t.close fd).lowest ≠ none := by
  obtain ⟨k, hk⟩ := Option.ne_none_iff_exists'.mp h
  have hlt : k < t.limit := lt_of_lowest hk
  by_cases hkf : k = fd
  · rw [hkf] at hlt
    exact lowest_ne_none (t := t.close fd) hlt owner_close_self
  · exact lowest_ne_none (t := t.close fd) hlt ((owner_close_of_ne hkf).trans (owner_of_lowest hk))

/-- In a full table the number that is closed is the next one to be opened. -/
theorem lowest_close_of_full (hfull : t.lowest = none) (hlt : fd < t.limit) :
    (t.close fd).lowest = some fd := by
  cases h : (t.close fd).lowest with
  | none => exact absurd owner_close_self (lowest_eq_none_iff.mp h fd hlt)
  | some k =>
    by_contra hne
    have hk : k ≠ fd := fun hk => hne (congrArg some hk)
    have hklt : k < (t.close fd).limit := lt_of_lowest h
    have hfree := owner_of_lowest h
    rw [owner_close_of_ne hk] at hfree
    exact lowest_eq_none_iff.mp hfull k hklt hfree

theorem assign_close (h : t.owner fd = some o) : (t.close fd).assign fd o = t := by
  unfold assign close
  rw [Function.update_idem, ← h, Function.update_eq_self]

theorem close_assign (h : t.owner fd = none) : (t.assign fd o).close fd = t := by
  unfold close assign
  rw [Function.update_idem, ← h, Function.update_eq_self]

/-- Opening the lowest free number takes nothing from anybody. -/
theorem owner_assign_lowest {o' : ω} (hlow : t.lowest = some fd) (hk : t.owner k = some o) :
    (t.assign fd o').owner k = some o := by
  have hne : k ≠ fd := by
    rintro rfl
    rw [owner_of_lowest hlow] at hk
    cases hk
  rw [owner_assign_of_ne hne, hk]

end DescriptorTable
