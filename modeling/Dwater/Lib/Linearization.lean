import Mathlib.Data.List.Nodup
import Mathlib.Tactic.Common

/-! # Linearizability

A sequential object takes one call after the other. The history of an object that is shared by
threads lists the calls and the returns as they happen. A linearization puts calls in an order in
which the sequential object returns the same results: all that have returned are in it, and one
that has returned comes before all that are made later. The rules below build a linearization
along a history, for objects that take effect at one step of every call.
-/

set_option autoImplicit false

universe u v w

/-- An object that takes the calls `C` and returns results in `R`. -/
structure SequentialObject (σ : Type u) (C : Type v) (R : Type w) where
  initial : σ
  next : σ → C → σ
  result : σ → C → R

/-- The events of a history, with the number of the call. -/
inductive CallEvent (C : Type v) (R : Type w)
  | call (n : ℕ) (c : C)
  | ret (n : ℕ) (r : R)
  deriving DecidableEq, Repr

/-- A call that has taken effect, and the result that it returns. -/
structure TakenCall (C : Type v) (R : Type w) where
  number : ℕ
  call : C
  result : R
  deriving DecidableEq, Repr

namespace SequentialObject

variable {σ : Type u} {C : Type v} {R : Type w} {A : SequentialObject σ C R} {s : σ} {m n : ℕ}
  {c : C} {r : R} {order : List (TakenCall C R)} {history : List (CallEvent C R)}
  {e : TakenCall C R}

def after (A : SequentialObject σ C R) (s : σ) (order : List (TakenCall C R)) : σ :=
  order.foldl (fun s e => A.next s e.call) s

def Legal (A : SequentialObject σ C R) : σ → List (TakenCall C R) → Prop
  | _, [] => True
  | s, e :: order => e.result = A.result s e.call ∧ A.Legal (A.next s e.call) order

def Precedes (order : List (TakenCall C R)) (m n : ℕ) : Prop :=
  ∃ front back, order = front ++ back ∧ m ∈ front.map TakenCall.number ∧
    n ∉ front.map TakenCall.number

/-- A call that is made after another has returned is not before it in the order. -/
def InOrder (order : List (TakenCall C R)) : CallEvent C R → CallEvent C R → Prop
  | .ret m _, .call n _ => Precedes order m n
  | _, _ => True

structure Linearizes (A : SequentialObject σ C R) (order : List (TakenCall C R))
    (history : List (CallEvent C R)) : Prop where
  legal : A.Legal A.initial order
  nodup : (order.map TakenCall.number).Nodup
  called : ∀ e ∈ order, .call e.number e.call ∈ history
  returned : ∀ n r, .ret n r ∈ history → ∃ e ∈ order, e.number = n ∧ e.result = r
  real_time : history.Pairwise (InOrder order)

def Linearizable (A : SequentialObject σ C R) (history : List (CallEvent C R)) : Prop :=
  ∃ order, A.Linearizes order history

theorem after_concat : A.after s (order ++ [e]) = A.next (A.after s order) e.call := by
  simp [after]

theorem legal_concat :
    A.Legal s (order ++ [e]) ↔ A.Legal s order ∧ e.result = A.result (A.after s order) e.call := by
  induction order generalizing s with
  | nil => simp [Legal, after]
  | cons x order ih =>
    rw [List.cons_append, Legal, Legal, ih, and_assoc]
    rfl

theorem Precedes.append (h : Precedes order m n) (more : List (TakenCall C R)) :
    Precedes (order ++ more) m n := by
  obtain ⟨front, back, rfl, hm, hn⟩ := h
  exact ⟨front, back ++ more, List.append_assoc .., hm, hn⟩

theorem InOrder.append {x y : CallEvent C R} (h : InOrder order x y)
    (more : List (TakenCall C R)) : InOrder (order ++ more) x y := by
  cases x with
  | call m c => trivial
  | ret m r =>
    cases y with
    | call n c => exact Precedes.append h more
    | ret n r' => trivial

theorem linearizes_nil : A.Linearizes [] [] where
  legal := trivial
  nodup := List.nodup_nil
  called _ he := by cases he
  returned _ _ hr := by cases hr
  real_time := .nil

theorem Linearizes.call (h : A.Linearizes order history)
    (hn : n ∉ order.map TakenCall.number) (c : C) :
    A.Linearizes order (history ++ [.call n c]) where
  legal := h.legal
  nodup := h.nodup
  called e he := List.mem_append_left _ (h.called e he)
  returned m r hr := by
    rcases List.mem_append.mp hr with hr | hr
    · exact h.returned m r hr
    · cases List.mem_singleton.mp hr
  real_time := by
    refine List.pairwise_append.mpr ⟨h.real_time, List.pairwise_singleton .., ?_⟩
    intro x hx y hy
    cases List.mem_singleton.mp hy
    cases x with
    | call m c' => trivial
    | ret m r =>
      obtain ⟨e, he, rfl, -⟩ := h.returned m r hx
      exact ⟨order, [], (List.append_nil order).symm, List.mem_map_of_mem he, hn⟩

theorem Linearizes.take (h : A.Linearizes order history) (hc : .call n c ∈ history)
    (hn : n ∉ order.map TakenCall.number) (hr : r = A.result (A.after A.initial order) c) :
    A.Linearizes (order ++ [⟨n, c, r⟩]) history where
  legal := legal_concat.mpr ⟨h.legal, hr⟩
  nodup := by
    have hnodup := h.nodup.concat hn
    rw [List.concat_eq_append] at hnodup
    rwa [List.map_append]
  called e he := by
    rcases List.mem_append.mp he with he | he
    · exact h.called e he
    · cases List.mem_singleton.mp he
      exact hc
  returned m r' hr' := by
    obtain ⟨e, he, heq⟩ := h.returned m r' hr'
    exact ⟨e, List.mem_append_left _ he, heq⟩
  real_time := h.real_time.imp fun hxy => hxy.append _

theorem Linearizes.ret (h : A.Linearizes order history) (he : e ∈ order) :
    A.Linearizes order (history ++ [.ret e.number e.result]) where
  legal := h.legal
  nodup := h.nodup
  called e' he' := List.mem_append_left _ (h.called e' he')
  returned m r hr := by
    rcases List.mem_append.mp hr with hr | hr
    · exact h.returned m r hr
    · cases List.mem_singleton.mp hr
      exact ⟨e, he, rfl, rfl⟩
  real_time := by
    refine List.pairwise_append.mpr ⟨h.real_time, List.pairwise_singleton .., ?_⟩
    intro x _ y hy
    cases List.mem_singleton.mp hy
    cases x <;> trivial

theorem Linearizable.of_single (h : A.Linearizable [.call n c, .ret n r]) :
    r = A.result A.initial c := by
  obtain ⟨order, h⟩ := h
  obtain ⟨e, he, -, rfl⟩ := h.returned n r (by simp)
  have hcall : ∀ e' ∈ order, e'.number = n ∧ e'.call = c := by
    intro e' he'
    simpa using h.called e' he'
  cases order with
  | nil => cases he
  | cons x order =>
    have hx : x ∈ x :: order := List.mem_cons_self
    have hsame := List.inj_on_of_nodup_map h.nodup he hx
      ((hcall e he).1.trans (hcall x hx).1.symm)
    rw [hsame, h.legal.1, (hcall x hx).2]

end SequentialObject
