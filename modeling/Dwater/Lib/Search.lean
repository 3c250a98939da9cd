import Mathlib.Tactic.Common
import Mathlib.Data.List.Basic
import Mathlib.Data.List.DropRight

/-! # Searching a list

`cut a` divides a list at its first `a`, and `cutPair a b` at the first `a` that is
followed by a `b`. Both are the searches of a forward iterator for a pattern of one or
two elements, with the parts before and after the match. `lowerBound` searches a range of
positions by halving it.
-/

set_option autoImplicit false
namespace Search

universe u

variable {α : Type u} [DecidableEq α] {a b : α} {l p q x : List α}

def cut (a : α) : List α → Option (List α × List α)
  | [] => none
  | y :: ys => if y = a then some ([], ys) else (cut a ys).map fun r => (y :: r.1, r.2)

/-- The parts before and after the first `a` followed by `b`. -/
def cutPair (a b : α) : List α → Option (List α × List α)
  | y :: z :: zs =>
    if y = a ∧ z = b then some ([], zs)
    else (cutPair a b (z :: zs)).map fun r => (y :: r.1, r.2)
  | _ => none

theorem cut_append_cons (h : a ∉ p) : cut a (p ++ a :: q) = some (p, q) := by
  induction p with
  | nil => simp [cut]
  | cons y ys ih =>
    have hy : y ≠ a := fun hy => h (hy ▸ List.mem_cons_self)
    have hys : a ∉ ys := fun hys => h (List.mem_cons_of_mem y hys)
    simp [cut, hy, ih hys]

theorem cut_eq_some (h : cut a l = some (p, q)) : l = p ++ a :: q ∧ a ∉ p := by
  induction l generalizing p q with
  | nil => cases h
  | cons y ys ih =>
    simp only [cut] at h
    split at h
    · next hy =>
      cases h
      exact ⟨by rw [hy]; rfl, List.not_mem_nil⟩
    · next hy =>
      obtain ⟨⟨p', q'⟩, hr, heq⟩ := Option.map_eq_some_iff.mp h
      cases heq
      obtain ⟨rfl, hp⟩ := ih hr
      refine ⟨rfl, ?_⟩
      rintro hmem
      rcases List.mem_cons.mp hmem with rfl | hmem
      · exact hy rfl
      · exact hp hmem

theorem cut_eq_none_iff : cut a l = none ↔ a ∉ l := by
  constructor
  · intro h hmem
    obtain ⟨p, q, rfl, hp⟩ := List.eq_append_cons_of_mem hmem
    rw [cut_append_cons hp] at h
    cases h
  · intro h
    cases hc : cut a l with
    | none => rfl
    | some r =>
      obtain ⟨p, q⟩ := r
      exact absurd (by rw [(cut_eq_some hc).1]; simp) h

theorem cutPair_append_cons (h : a ∉ p) : cutPair a b (p ++ a :: b :: q) = some (p, q) := by
  induction p with
  | nil => simp [cutPair]
  | cons y ys ih =>
    have hy : y ≠ a := fun hy => h (hy ▸ List.mem_cons_self)
    have hys : a ∉ ys := fun hys => h (List.mem_cons_of_mem y hys)
    have ih' := ih hys
    cases ys with
    | nil => simp [cutPair, hy]
    | cons z zs =>
      simp only [List.cons_append] at ih' ⊢
      simp [cutPair, hy, ih']

theorem cutPair_eq_some (h : cutPair a b l = some (p, q)) : l = p ++ a :: b :: q := by
  induction l generalizing p q with
  | nil => cases h
  | cons y ys ih =>
    cases ys with
    | nil => cases h
    | cons z zs =>
      simp only [cutPair] at h
      split at h
      · next hyz =>
        cases h
        rw [hyz.1, hyz.2]
        rfl
      · obtain ⟨⟨p', q'⟩, hr, heq⟩ := Option.map_eq_some_iff.mp h
        cases heq
        rw [ih hr]
        rfl

theorem cutPair_append (h : cutPair a b l = some (p, q)) (x : List α) :
    cutPair a b (l ++ x) = some (p, q ++ x) := by
  induction l generalizing p q with
  | nil => cases h
  | cons y ys ih =>
    cases ys with
    | nil => cases h
    | cons z zs =>
      simp only [cutPair, List.cons_append] at h ⊢
      split at h
      · next hyz =>
        cases h
        rw [if_pos hyz]
      · next hyz =>
        obtain ⟨⟨p', q'⟩, hr, heq⟩ := Option.map_eq_some_iff.mp h
        cases heq
        have := ih hr
        simp only [List.cons_append] at this
        rw [if_neg hyz, this]
        rfl

theorem cutPair_before (h : cutPair a b l = some (p, q)) : cutPair a b p = none := by
  induction l generalizing p q with
  | nil => cases h
  | cons y ys ih =>
    cases ys with
    | nil => cases h
    | cons z zs =>
      simp only [cutPair] at h
      split at h
      · cases h
        rfl
      · next hyz =>
        obtain ⟨⟨p', q'⟩, hr, heq⟩ := Option.map_eq_some_iff.mp h
        cases heq
        have hp' := ih hr
        cases p' with
        | nil => rfl
        | cons w ws =>
          have hw : w = z := (List.cons.inj (cutPair_eq_some hr)).1.symm
          simp only [cutPair, hw, if_neg hyz]
          rw [hw] at hp'
          rw [hp']
          rfl

theorem cutPair_append_cons_of_none (hab : a ≠ b) (h : cutPair a b p = none) :
    cutPair a b (p ++ a :: b :: q) = some (p, q) := by
  induction p with
  | nil => simp [cutPair]
  | cons y ys ih =>
    cases ys with
    | nil => simp [cutPair, hab]
    | cons z zs =>
      simp only [cutPair] at h
      split at h
      · cases h
      · next hyz =>
        have ih' := ih (Option.map_eq_none_iff.mp h)
        simp only [List.cons_append] at ih' ⊢
        simp only [cutPair, if_neg hyz, ih']
        rfl

theorem length_of_cutPair (h : cutPair a b l = some (p, q)) :
    l.length = p.length + 2 + q.length := by
  rw [cutPair_eq_some h]
  simp only [List.length_append, List.length_cons]
  omega

section LowerBound

variable {less : ℕ → Bool} {fuel first len i : ℕ}

/-- Halve the `len` positions from `first` on and go on in the half that holds the first position
that is not less; `fuel` bounds the rounds. -/
def lowerBound (less : ℕ → Bool) : ℕ → ℕ → ℕ → ℕ
  | 0, first, _ => first
  | fuel + 1, first, len =>
    if len = 0 then first
    else if less (first + len / 2) then
      lowerBound less fuel (first + len / 2 + 1) (len - len / 2 - 1)
    else lowerBound less fuel first (len / 2)

/-- On a range that `less` partitions, the search finds the place where it is divided. -/
theorem lowerBound_eq (hbelow : ∀ j < i, less j = true)
    (habove : ∀ j, i ≤ j → j < first + len → less j = false) (hi : first ≤ i)
    (hi' : i ≤ first + len) (hfuel : len ≤ fuel) : lowerBound less fuel first len = i := by
  induction fuel generalizing first len with
  | zero =>
    rw [lowerBound]
    omega
  | succ fuel ih =>
    rw [lowerBound]
    split_ifs with hlen hless
    · omega
    · have hlt : first + len / 2 < i := by
        by_contra hle
        rw [habove _ (by omega) (by omega)] at hless
        contradiction
      exact ih (fun j hj hj' => habove j hj (by omega)) (by omega) (by omega) (by omega)
    · have hge : i ≤ first + len / 2 := by
        by_contra hlt
        exact hless (hbelow _ (by omega))
      exact ih (fun j hj hj' => habove j hj (by omega)) hi hge (by omega)

end LowerBound

section AfterLast

/-- The part after the last `a`, which is the whole list if there is none. -/
def afterLast (a : α) (l : List α) : List α := l.rtakeWhile (· ≠ a)

theorem afterLast_suffix (a : α) (l : List α) : afterLast a l <:+ l := List.rtakeWhile_suffix _ l

theorem afterLast_eq_self_iff : afterLast a l = l ↔ a ∉ l := by
  rw [afterLast, List.rtakeWhile_eq_self_iff]
  constructor
  · intro h hmem
    simpa using h a hmem
  · intro h x hx
    exact decide_eq_true fun hxa => h (hxa ▸ hx)

theorem afterLast_append_cons : afterLast a (p ++ a :: q) = afterLast a q := by
  induction q using List.reverseRecOn with
  | nil => simp [afterLast]
  | append_singleton q x ih =>
    rw [afterLast, afterLast, ← List.cons_append, ← List.append_assoc, List.rtakeWhile_concat,
      List.rtakeWhile_concat]
    split
    · exact congrArg (· ++ [x]) ih
    · rfl

omit [DecidableEq α] in
theorem exists_last (h : a ∈ l) : ∃ p q, l = p ++ a :: q ∧ a ∉ q := by
  obtain ⟨p, q, hl, hp⟩ := List.eq_append_cons_of_mem (List.mem_reverse.mpr h)
  refine ⟨q.reverse, p.reverse, ?_, fun hmem => hp (List.mem_reverse.mp hmem)⟩
  rw [← List.reverse_reverse l, hl, List.reverse_append, List.reverse_cons, List.append_assoc,
    List.singleton_append]

end AfterLast

theorem filter_eq_take {β : Type u} {test : β → Bool} {xs : List β} {k : ℕ}
    (hbelow : ∀ i x, i < k → xs[i]? = some x → test x = true)
    (habove : ∀ i x, k ≤ i → xs[i]? = some x → test x = false) :
    xs.filter test = xs.take k := by
  have htake : (xs.take k).filter test = xs.take k := by
    rw [List.filter_eq_self]
    intro x hx
    obtain ⟨i, hi⟩ := List.getElem?_of_mem hx
    rw [List.getElem?_take] at hi
    split at hi
    · next hlt => exact hbelow i x hlt hi
    · cases hi
  have hdrop : (xs.drop k).filter test = [] := by
    rw [List.filter_eq_nil_iff]
    intro x hx
    obtain ⟨i, hi⟩ := List.getElem?_of_mem hx
    rw [List.getElem?_drop] at hi
    simp [habove (k + i) x (Nat.le_add_right k i) hi]
  calc xs.filter test
      = (xs.take k ++ xs.drop k).filter test := by rw [List.take_append_drop]
    _ = xs.take k := by rw [List.filter_append, htake, hdrop, List.append_nil]

end Search
