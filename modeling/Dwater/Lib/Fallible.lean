import Mathlib.Tactic.Common
import Mathlib.Data.List.Basic
import Mathlib.Data.Nat.Basic

/-! # Fallible computations and their runs

A computation that may stop at a failed check is an `Except`. `Yields x P` says
that it does not stop and that its value satisfies `P`. A run folds a fallible
step over a list of inputs; `Along` restricts the inputs by a condition on the
state each of them meets, and the rules below carry invariants and simulations
through whole runs.
-/

set_option autoImplicit false
namespace Fallible

universe u v w

variable {ε : Type v} {α β σ : Type u} {ι : Type w}

/-- Stop with the failure `e` unless `c` holds. -/
def check (c : Prop) [Decidable c] (e : ε) : Except ε PUnit.{u + 1} :=
  if c then .ok ⟨⟩ else .error e

/-- The computation returns normally, with a value satisfying `P`. -/
def Yields (x : Except ε α) (P : α → Prop) : Prop := ∃ a, x = .ok a ∧ P a

@[simp] theorem yields_ok {a : α} {P : α → Prop} : Yields (.ok a : Except ε α) P ↔ P a := by
  simp [Yields]

@[simp] theorem yields_pure {a : α} {P : α → Prop} :
    Yields (pure a : Except ε α) P ↔ P a := yields_ok

@[simp] theorem yields_error {e : ε} {P : α → Prop} :
    ¬ Yields (.error e : Except ε α) P := by simp [Yields]

theorem Yields.mono {x : Except ε α} {P Q : α → Prop} (h : Yields x P)
    (hpq : ∀ a, P a → Q a) : Yields x Q := by
  obtain ⟨a, ha, hp⟩ := h
  exact ⟨a, ha, hpq a hp⟩

theorem Yields.of_eq {x : Except ε α} {P : α → Prop} {a : α} (h : Yields x P)
    (ha : x = .ok a) : P a := by
  obtain ⟨b, hb, hp⟩ := h
  rw [ha] at hb
  cases hb
  exact hp

theorem yields_bind {x : Except ε α} {f : α → Except ε β} {P : α → Prop} {Q : β → Prop}
    (hx : Yields x P) (hf : ∀ a, P a → Yields (f a) Q) : Yields (x >>= f) Q := by
  obtain ⟨a, rfl, hp⟩ := hx
  exact hf a hp

theorem ok_bind (a : α) (f : α → Except ε β) : (.ok a >>= f) = f a := rfl

theorem bind_eq_ok {x : Except ε α} {f : α → Except ε β} {b : β} (h : (x >>= f) = .ok b) :
    ∃ a, x = .ok a ∧ f a = .ok b := by
  cases x with
  | error e => cases h
  | ok a => exact ⟨a, rfl, h⟩

theorem map_eq_ok {x : Except ε α} {f : α → β} {b : β} (h : f <$> x = .ok b) :
    ∃ a, x = .ok a ∧ f a = b := by
  cases x with
  | error e => cases h
  | ok a => exact ⟨a, rfl, Except.ok.inj h⟩

theorem check_bind_eq_ok {c : Prop} [Decidable c] {e : ε} {f : PUnit → Except ε β} {b : β}
    (h : (check c e >>= f) = .ok b) : c ∧ f ⟨⟩ = .ok b := by
  unfold check at h
  split at h
  · next hc => exact ⟨hc, h⟩
  · cases h

theorem ite_eq_ok {c : Prop} [Decidable c] {x : Except ε α} {a b : α}
    (h : (if c then x else .ok a) = .ok b) : c ∧ x = .ok b ∨ b = a := by
  split at h
  · next hc => exact .inl ⟨hc, h⟩
  · cases h
    exact .inr rfl

theorem yields_map {x : Except ε α} {f : α → β} {P : α → Prop} {Q : β → Prop}
    (hx : Yields x P) (hf : ∀ a, P a → Q (f a)) : Yields (f <$> x) Q := by
  obtain ⟨a, rfl, hp⟩ := hx
  exact ⟨f a, rfl, hf a hp⟩

@[simp] theorem check_bind_of_true {c : Prop} [Decidable c] {e : ε}
    {f : PUnit → Except ε β} (h : c) : (check c e >>= f) = f ⟨⟩ := by
  simp [check, h, bind, Except.bind]

@[simp] theorem check_bind_of_false {c : Prop} [Decidable c] {e : ε}
    {f : PUnit → Except ε β} (h : ¬ c) : (check c e >>= f) = .error e := by
  simp [check, h, bind, Except.bind]

/-- The computation does not stop with a failure in `E`, and its value, if any, satisfies `P`. -/
def Avoids (E : ε → Prop) (x : Except ε α) (P : α → Prop) : Prop :=
  (∀ e, x = .error e → ¬ E e) ∧ ∀ a, x = .ok a → P a

section Avoids

variable {E : ε → Prop} {e : ε} {P Q : α → Prop}

@[simp] theorem avoids_ok {a : α} : Avoids E (.ok a) P ↔ P a := by simp [Avoids]

@[simp] theorem avoids_pure {a : α} : Avoids E (pure a) P ↔ P a := avoids_ok

theorem avoids_throw (h : ¬ E e) : Avoids E (throw e) P := by
  constructor
  · rintro d ⟨⟩
    exact h
  · rintro a ⟨⟩

theorem Avoids.mono {x : Except ε α} (h : Avoids E x P) (hpq : ∀ a, P a → Q a) : Avoids E x Q :=
  ⟨h.1, fun a ha => hpq a (h.2 a ha)⟩

theorem avoids_bind {x : Except ε α} {f : α → Except ε β} {R : β → Prop} (hx : Avoids E x P)
    (hf : ∀ a, P a → Avoids E (f a) R) : Avoids E (x >>= f) R := by
  cases x with
  | error d => exact avoids_throw (hx.1 d rfl)
  | ok a => exact hf a (hx.2 a rfl)

theorem avoids_map {x : Except ε α} {f : α → β} {R : β → Prop} (hx : Avoids E x P)
    (hf : ∀ a, P a → R (f a)) : Avoids E (f <$> x) R := by
  cases x with
  | error d => exact avoids_throw (hx.1 d rfl)
  | ok a => exact avoids_ok.mpr (hf a (hx.2 a rfl))

theorem avoids_check {c : Prop} [Decidable c] {f : PUnit → Except ε α} (h : ¬ E e)
    (hf : c → Avoids E (f ⟨⟩) P) : Avoids E (check c e >>= f) P := by
  by_cases hc : c
  · rw [check_bind_of_true hc]
    exact hf hc
  · rw [check_bind_of_false hc]
    exact avoids_throw h

theorem avoids_ite {c : Prop} [Decidable c] {x y : Except ε α} (hx : c → Avoids E x P)
    (hy : ¬ c → Avoids E y P) : Avoids E (if c then x else y) P := by
  split
  · next hc => exact hx hc
  · next hc => exact hy hc

end Avoids

def run (step : σ → ι → Except ε σ) : σ → List ι → Except ε σ
  | s, [] => .ok s
  | s, x :: xs => step s x >>= fun s' => run step s' xs

/-- Every input of the run meets the condition in the state it finds. -/
def Along (step : σ → ι → Except ε σ) (C : σ → ι → Prop) : σ → List ι → Prop
  | _, [] => True
  | s, x :: xs => C s x ∧ ∀ s', step s x = .ok s' → Along step C s' xs

variable {step : σ → ι → Except ε σ} {C : σ → ι → Prop}

@[simp] theorem run_nil (s : σ) : run step s [] = .ok s := rfl

theorem run_singleton (s : σ) (x : ι) : run step s [x] = step s x := by
  cases h : step s x <;> simp [run, h, bind, Except.bind]

theorem run_cons_of_ok {s s' : σ} {x : ι} {xs : List ι} (h : step s x = .ok s') :
    run step s (x :: xs) = run step s' xs := by
  simp [run, h, bind, Except.bind]

theorem run_append (s : σ) (xs ys : List ι) :
    run step s (xs ++ ys) = run step s xs >>= fun s' => run step s' ys := by
  induction xs generalizing s with
  | nil => rfl
  | cons x xs ih =>
    cases h : step s x with
    | error e => simp [run, h, bind, Except.bind]
    | ok t => rw [List.cons_append, run_cons_of_ok h, run_cons_of_ok h, ih]

theorem along_cons {s s' : σ} {x : ι} {xs : List ι} (hc : C s x) (hs : step s x = .ok s')
    (h : Along step C s' xs) : Along step C s (x :: xs) := by
  refine ⟨hc, fun t ht => ?_⟩
  cases hs.symm.trans ht
  exact h

theorem Along.mono {D : σ → ι → Prop} {s : σ} {xs : List ι} (h : Along step C s xs)
    (hcd : ∀ s x, C s x → D s x) : Along step D s xs := by
  induction xs generalizing s with
  | nil => trivial
  | cons x xs ih => exact ⟨hcd s x h.1, fun s' hs => ih (h.2 s' hs)⟩

theorem along_of_forall (h : ∀ s x, C s x) (s : σ) (xs : List ι) : Along step C s xs := by
  induction xs generalizing s with
  | nil => trivial
  | cons x xs ih => exact ⟨h s x, fun s' _ => ih s'⟩

theorem along_of_mem {D : ι → Prop} {xs : List ι} (h : ∀ x ∈ xs, D x) (s : σ) :
    Along step (fun _ x => D x) s xs := by
  induction xs generalizing s with
  | nil => trivial
  | cons x xs ih =>
    exact ⟨h x List.mem_cons_self, fun s' _ => ih (fun y hy => h y (List.mem_cons_of_mem x hy)) s'⟩

theorem mem_of_along {D : ι → Prop} {I : σ → Prop}
    (hstep : ∀ s x, I s → D x → Yields (step s x) I) {xs : List ι} :
    ∀ {s : σ}, I s → Along step (fun _ x => D x) s xs → ∀ x ∈ xs, D x := by
  induction xs with
  | nil => simp
  | cons y xs ih =>
    rintro s h ⟨hy, hrest⟩ x hx
    obtain ⟨t, ht, hi⟩ := hstep s y h hy
    rcases List.mem_cons.mp hx with rfl | hx
    · exact hy
    · exact ih hi (hrest t ht) x hx

theorem run_simulates {τ : Type*} {R : σ → τ → Prop} {f : τ → ι → τ}
    (hstep : ∀ s a x, R s a → C s x → Yields (step s x) fun s' => R s' (f a x))
    {xs : List ι} : ∀ {s : σ} {a : τ}, R s a → Along step C s xs →
      Yields (run step s xs) fun s' => R s' (xs.foldl f a) := by
  induction xs with
  | nil => intro s a h _; simpa using h
  | cons x xs ih =>
    intro s a h hc
    obtain ⟨s', hs', hr⟩ := hstep s a x h hc.1
    rw [run_cons_of_ok hs']
    exact ih hr (hc.2 s' hs')

theorem run_invariant {I : σ → Prop}
    (hstep : ∀ s x, I s → C s x → Yields (step s x) I)
    {xs : List ι} {s : σ} (h : I s) (hc : Along step C s xs) :
    Yields (run step s xs) I :=
  run_simulates (R := fun s (_ : Unit) => I s) (f := fun _ _ => ())
    (fun s _ x hs hx => hstep s x hs hx) (a := ()) h hc

/-- A step that keeps an invariant which may speak of the inputs so far keeps it through every
run. -/
theorem run_history {H : List ι → σ → Prop}
    (hstep : ∀ done s x, H done s → C s x → Yields (step s x) (H (done ++ [x])))
    {xs : List ι} : ∀ {done : List ι} {s : σ}, H done s → Along step C s xs →
      Yields (run step s xs) (H (done ++ xs)) := by
  induction xs with
  | nil =>
    intro done s h _
    simpa using h
  | cons x xs ih =>
    intro done s h hc
    obtain ⟨t, ht, hh⟩ := hstep done s x h hc.1
    rw [run_cons_of_ok ht, List.append_cons]
    exact ih hh (hc.2 t ht)

/-- When the steps that meet the condition keep an invariant and the others break a property that
the invariant implies, the property holds all along a run exactly when the condition does. -/
theorem run_take_iff {I P : σ → Prop} {E : σ → ι → Prop}
    (hgood : ∀ s x, I s → E s x → C s x → Yields (step s x) I)
    (hbad : ∀ s x, I s → E s x → ¬ C s x → ¬ Yields (step s x) P) (hP : ∀ s, I s → P s)
    {xs : List ι} : ∀ {s : σ}, I s → Along step E s xs →
      ((∀ n, Yields (run step s (xs.take n)) P) ↔ Along step C s xs) := by
  induction xs with
  | nil =>
    intro s h _
    simpa [Along] using hP s h
  | cons x xs ih =>
    intro s h he
    constructor
    · intro hall
      have hc : C s x := by
        by_contra hc
        refine hbad s x h he.1 hc ?_
        have h₁ := hall 1
        rwa [List.take_succ_cons, List.take_zero, run_singleton] at h₁
      obtain ⟨t, ht, hi⟩ := hgood s x h he.1 hc
      refine along_cons hc ht ((ih hi (he.2 t ht)).mp fun n => ?_)
      have hn := hall (n + 1)
      rwa [List.take_succ_cons, run_cons_of_ok ht] at hn
    · rintro ⟨hc, hal⟩ n
      obtain ⟨t, ht, hi⟩ := hgood s x h he.1 hc
      cases n with
      | zero => exact yields_ok.mpr (hP s h)
      | succ n =>
        rw [List.take_succ_cons, run_cons_of_ok ht]
        exact (ih hi (he.2 t ht)).mpr (hal t ht) n

theorem reached_invariant {I : σ → Prop}
    (hstep : ∀ s x s', I s → C s x → step s x = .ok s' → I s')
    {xs : List ι} : ∀ {s s' : σ}, I s → Along step C s xs → run step s xs = .ok s' → I s' := by
  induction xs with
  | nil =>
    intro s s' h _ hr
    cases hr
    exact h
  | cons x xs ih =>
    intro s s' h hc hr
    cases hx : step s x with
    | error e => simp [run, hx, bind, Except.bind] at hr
    | ok t =>
      rw [run_cons_of_ok hx] at hr
      exact ih (hstep s x t h hc.1 hx) (hc.2 t hx) hr

/-- The rule of invariants for runs that may stop, only not with a failure in `E`. -/
theorem avoids_run {E : ε → Prop} {I : σ → Prop}
    (hstep : ∀ s x, I s → C s x → Avoids E (step s x) I)
    {xs : List ι} : ∀ {s : σ}, I s → Along step C s xs → Avoids E (run step s xs) I := by
  induction xs with
  | nil =>
    intro s h _
    exact avoids_ok.mpr h
  | cons x xs ih =>
    intro s h hc
    have hx := hstep s x h hc.1
    refine avoids_bind (P := fun t => step s x = .ok t ∧ I t) ⟨hx.1, fun t ht => ⟨ht, hx.2 t ht⟩⟩ ?_
    rintro t ⟨ht, hi⟩
    exact ih hi (hc.2 t ht)

/-- Two computations end alike: with related values, or with the same failure. -/
def EndAlike {τ : Type u} (R : σ → τ → Prop) : Except ε σ → Except ε τ → Prop
  | .ok s, .ok a => R s a
  | .error e, .error e' => e = e'
  | _, _ => False

section EndAlike

variable {τ : Type u} {κ : Type w} {R : σ → τ → Prop} {astep : τ → κ → Except ε τ}

theorem EndAlike.of_ok {x : Except ε σ} {y : Except ε τ} {a : τ} (h : EndAlike R x y)
    (hy : y = .ok a) : Yields x fun s => R s a := by
  subst hy
  cases x with
  | error e => cases h
  | ok s => exact yields_ok.mpr h

theorem EndAlike.avoids {E : ε → Prop} {x : Except ε σ} {y : Except ε τ} {P : τ → Prop}
    {Q : σ → Prop} (h : EndAlike R x y) (hy : Avoids E y P) (hpq : ∀ s a, R s a → P a → Q s) :
    Avoids E x Q := by
  cases x with
  | error e =>
    cases y with
    | error e' =>
      cases h
      exact avoids_throw (hy.1 e rfl)
    | ok a => cases h
  | ok s =>
    cases y with
    | error e => cases h
    | ok a => exact avoids_ok.mpr (hpq s a h (hy.2 a rfl))

/-- A step that some steps of an abstract system match, or none, is matched through every run. -/
theorem run_refines
    (hstep : ∀ s a x, R s a → C s x → ∃ ys, EndAlike R (step s x) (run astep a ys))
    {xs : List ι} : ∀ {s : σ} {a : τ}, R s a → Along step C s xs →
      ∃ ys, EndAlike R (run step s xs) (run astep a ys) := by
  induction xs with
  | nil =>
    intro s a h _
    exact ⟨[], h⟩
  | cons x xs ih =>
    intro s a h hc
    obtain ⟨ys, hys⟩ := hstep s a x h hc.1
    cases hs : step s x with
    | error e =>
      refine ⟨ys, ?_⟩
      rw [hs] at hys
      have hrun : run step s (x :: xs) = .error e := by simp [run, hs, bind, Except.bind]
      rw [hrun]
      exact hys
    | ok s' =>
      rw [hs] at hys
      cases ha : run astep a ys with
      | error e =>
        rw [ha] at hys
        cases hys
      | ok a' =>
        rw [ha] at hys
        obtain ⟨zs, hzs⟩ := ih hys (hc.2 s' hs)
        refine ⟨ys ++ zs, ?_⟩
        rw [run_cons_of_ok hs, run_append, ha]
        exact hzs

end EndAlike

end Fallible
