import Mathlib.Data.List.Infix

/-! # Frames of a stream

A receiver takes one frame after the other from the front of what has arrived. Whether a
frame is there is decided by its own elements, so that it does not matter how much of the
stream has arrived behind it.
-/

set_option autoImplicit false

/-- `Takes q f rest`: the frame `f` is at the front of `q`, and `rest` is behind it. -/
structure Framing (α β : Type*) where
  Takes : List α → β → List α → Prop
  unique : ∀ {q f g rest rest'}, Takes q f rest → Takes q g rest' → f = g ∧ rest = rest'
  append : ∀ {q f rest}, Takes q f rest → ∀ x, Takes (q ++ x) f (rest ++ x)

namespace Framing

variable {α β : Type*} {F : Framing α β} {q u u' x : List α} {fs gs : List β} {f : β}

/-- The frames at the front of `q` in order, and what is behind the last of them. -/
inductive Splits (F : Framing α β) : List α → List β → List α → Prop
  | nil (q : List α) : Splits F q [] q
  | cons {q q' u : List α} {f : β} {fs : List β} :
      F.Takes q f q' → Splits F q' fs u → Splits F q (f :: fs) u

namespace Splits

theorem append (h : F.Splits q fs u) (x : List α) : F.Splits (q ++ x) fs (u ++ x) := by
  induction h with
  | nil q => exact .nil _
  | cons hf _ ih => exact .cons (F.append hf x) ih

theorem concat (h : F.Splits q fs u) (hf : F.Takes u f u') : F.Splits q (fs ++ [f]) u' := by
  induction h with
  | nil q => exact .cons hf (.nil _)
  | cons hg _ ih => exact .cons hg (ih hf)

/-- Who has taken fewer frames from a stream has taken the first of them. -/
theorem isPrefix (h : F.Splits q fs u) (h' : F.Splits q gs u') (hle : fs.length ≤ gs.length) :
    fs <+: gs := by
  induction h generalizing gs with
  | nil q => exact List.nil_prefix
  | cons hf _ ih =>
    cases h' with
    | nil => exact absurd hle (by simp)
    | cons hg hrest =>
      obtain ⟨rfl, rfl⟩ := F.unique hf hg
      exact List.cons_prefix_cons.mpr ⟨rfl, ih hrest (Nat.le_of_succ_le_succ hle)⟩

theorem length_le (h : F.Splits q fs u) (hnone : ∀ f rest, ¬ F.Takes u f rest)
    (h' : F.Splits q gs u') : gs.length ≤ fs.length := by
  induction h generalizing gs with
  | nil q =>
    cases h' with
    | nil => exact le_rfl
    | cons hg _ => exact absurd hg (hnone _ _)
  | cons hf _ ih =>
    cases h' with
    | nil => exact Nat.zero_le _
    | cons hg hrest =>
      obtain ⟨-, rfl⟩ := F.unique hf hg
      exact Nat.succ_le_succ (ih hnone hrest)

end Splits

end Framing
