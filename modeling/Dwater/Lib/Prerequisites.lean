import Mathlib.Data.List.Basic

/-! # Lists in which everything comes after what it needs

`Supported needs done xs` says that, once the elements of `done` have happened, those of `xs`
can happen in their order: whatever an element needs is before it.
-/

set_option autoImplicit false
namespace Prerequisites

universe u

variable {α : Type u} {needs : α → α → Prop} {done done' xs ys : List α} {x y : α}

/-- Everything that an element needs is in `done` or before it in the list. -/
def Supported (needs : α → α → Prop) : List α → List α → Prop
  | _, [] => True
  | done, x :: xs => (∀ y, needs x y → y ∈ done) ∧ Supported needs (done ++ [x]) xs

theorem Supported.mono : ∀ {xs done done' : List α}, Supported needs done xs → done ⊆ done' →
    Supported needs done' xs := by
  intro xs
  induction xs with
  | nil => exact fun _ _ => trivial
  | cons x xs ih =>
    intro done done' h hsub
    refine ⟨fun y hy => hsub (h.1 y hy), ih h.2 ?_⟩
    exact List.append_subset.mpr
      ⟨fun y hy => List.mem_append_left _ (hsub hy), List.subset_append_right _ _⟩

theorem supported_of_free (h : ∀ x ∈ xs, ∀ y, ¬ needs x y) : Supported needs done xs := by
  induction xs generalizing done with
  | nil => trivial
  | cons x xs ih =>
    obtain ⟨hx, hxs⟩ := List.forall_mem_cons.mp h
    exact ⟨fun y hy => absurd hy (hx y), ih hxs⟩

theorem supported_append : ∀ {xs done : List α},
    Supported needs done (xs ++ ys) ↔
      Supported needs done xs ∧ Supported needs (done ++ xs) ys := by
  intro xs
  induction xs with
  | nil =>
    intro done
    simp [Supported]
  | cons x xs ih =>
    intro done
    rw [List.cons_append, Supported, Supported, ih, List.append_assoc, List.singleton_append,
      and_assoc]

theorem Supported.concat (h : Supported needs done xs) (hx : ∀ y, needs x y → y ∈ done ++ xs) :
    Supported needs done (xs ++ [x]) :=
  supported_append.mpr ⟨h, hx, trivial⟩

theorem Supported.insert (h : Supported needs done (xs ++ ys))
    (hx : ∀ y, needs x y → y ∈ done ++ xs) : Supported needs done (xs ++ [x] ++ ys) := by
  obtain ⟨hxs, hys⟩ := supported_append.mp h
  refine supported_append.mpr ⟨hxs.concat hx, hys.mono ?_⟩
  rw [← List.append_assoc]
  exact List.subset_append_left _ _

theorem Supported.before (h : Supported needs [] xs) {pre post : List α}
    (hxs : xs = pre ++ x :: post) (hy : needs x y) : y ∈ pre := by
  subst hxs
  exact (supported_append.mp h).2.1 y hy

end Prerequisites
