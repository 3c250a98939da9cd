import Dwater.Base.Atomic

/-! # Starting a server

Any number of threads may call `Start`. The one whose exchange finds 0 in `started_` enters the
branch that starts the threads and listens. The constructor of the server does not mention
`started_`, so that nobody enters when its memory holds something else.
-/

set_option autoImplicit false
namespace Dwater

open Fallible

variable {ι : Type}

/-- A server, with the threads that have entered the branch of `Start`. -/
structure ServerStart (ι : Type) where
  started : SharedAtomic ι 32
  entered : List ι

/-- A call of `Start`, the exchange in it, and the test of what the exchange has returned. -/
inductive StartLabel (ι : Type)
  | call (t : ι)
  | exchange (t : ι)
  | test (t : ι)

namespace ServerStart

def new (storage : Storage 32) : ServerStart ι := ⟨.new storage, []⟩

def step [DecidableEq ι] (s : ServerStart ι) : StartLabel ι → Except Fault (ServerStart ι)
  | .call t => do
    let started ← s.started.step (.call t (.getAndSet 1))
    return { s with started := started }
  | .exchange t => do
    let started ← s.started.step (.execute t)
    return { s with started := started }
  | .test t =>
    match s.started.phase t with
    | .returning _ result => do
      let started ← s.started.step (.ret t)
      return { s with
        started := started
        entered := if result = some 0 then s.entered ++ [t] else s.entered }
    | _ => return s

/-- `Start` has been called, and every call has returned. -/
def Completed (s : ServerStart ι) : Prop :=
  0 < s.started.calls ∧ ∀ t, s.started.phase t = .idle

variable {s s' : ServerStart ι} {t u : ι} {n : ℕ}

/-- The exchange of the thread has found 0, and the thread has not yet tested it. -/
def Enters (s : ServerStart ι) (t : ι) : Prop := ∃ n, s.started.phase t = .returning n (some 0)

def Exchanges (s : ServerStart ι) : Prop :=
  ∀ t n c, s.started.phase t = .called n c → c = .getAndSet 1

/-- A thread is still to execute its exchange, if `Start` has been called at all. -/
def Pending (s : ServerStart ι) : Prop :=
  0 < s.started.calls → ∃ t n c, s.started.phase t = .called n c

/-- What a step does: an exchange, the entry of a thread, or neither of them. -/
inductive Moved (s s' : ServerStart ι) : Prop
  | exchange (t : ι) (ht : ¬ s.Enters t) (hvalue : s'.started.value ≠ 0)
      (hentered : s'.entered = s.entered)
      (henters : ∀ u, s'.Enters u ↔ s.Enters u ∨ u = t ∧ s.started.value = 0)
  | enter (t : ι) (ht : s.Enters t) (hvalue : s'.started.value = s.started.value)
      (hentered : s'.entered = s.entered ++ [t])
      (henters : ∀ u, s'.Enters u ↔ s.Enters u ∧ u ≠ t)
  | other (hvalue : s'.started.value = s.started.value) (hentered : s'.entered = s.entered)
      (henters : ∀ u, s'.Enters u ↔ s.Enters u) (hpending : s.Pending → s'.Pending)

theorem not_enters {phase : AtomicPhase 32} (hp : s.started.phase t = phase)
    (hne : ∀ n, phase ≠ .returning n (some 0)) : ¬ s.Enters t :=
  fun ⟨n, hn⟩ => hne n (hp.symm.trans hn)

structure Untouched (s : ServerStart ι) : Prop where
  value_eq : s.started.value = 0
  entered : s.entered = []
  enters : ∀ u, ¬ s.Enters u
  pending : s.Pending

/-- One thread is about to enter. -/
structure Entering (s : ServerStart ι) (t : ι) : Prop where
  value_ne : s.started.value ≠ 0
  entered : s.entered = []
  enters_iff : ∀ u, s.Enters u ↔ u = t

/-- No thread will enter any more. -/
structure Closed (s : ServerStart ι) (k : ℕ) : Prop where
  value_ne : s.started.value ≠ 0
  entered : s.entered.length = k
  enters : ∀ u, ¬ s.Enters u

theorem Closed.moved {k : ℕ} (h : s.Closed k) (hm : Moved s s') : s'.Closed k := by
  cases hm with
  | exchange t ht hvalue hentered henters =>
    refine ⟨hvalue, hentered ▸ h.entered, fun u hu => ?_⟩
    exact ((henters u).mp hu).elim (h.enters u) fun hzero => h.value_ne hzero.2
  | enter t ht => exact absurd ht (h.enters t)
  | other hvalue hentered henters =>
    exact ⟨hvalue ▸ h.value_ne, hentered ▸ h.entered, fun u hu => h.enters u ((henters u).mp hu)⟩

theorem Entering.moved (h : s.Entering t) (hm : Moved s s') : s'.Entering t ∨ s'.Closed 1 := by
  cases hm with
  | exchange u hu hvalue hentered henters =>
    refine .inl ⟨hvalue, hentered ▸ h.entered, fun v => ?_⟩
    rw [henters, or_iff_left fun hzero => h.value_ne hzero.2, h.enters_iff]
  | enter u hu hvalue hentered henters =>
    obtain rfl := (h.enters_iff u).mp hu
    refine .inr ⟨hvalue ▸ h.value_ne, ?_, fun v hv => ?_⟩
    · rw [hentered, h.entered]
      rfl
    · obtain ⟨hv, hne⟩ := (henters v).mp hv
      exact hne ((h.enters_iff v).mp hv)
  | other hvalue hentered henters =>
    exact .inl ⟨hvalue ▸ h.value_ne, hentered ▸ h.entered,
      fun v => (henters v).trans (h.enters_iff v)⟩

theorem Untouched.moved (h : s.Untouched) (hm : Moved s s') :
    s'.Untouched ∨ ∃ t, s'.Entering t := by
  cases hm with
  | exchange t ht hvalue hentered henters =>
    refine .inr ⟨t, hvalue, hentered ▸ h.entered, fun u => ?_⟩
    rw [henters, or_iff_right (h.enters u), and_iff_left h.value_eq]
  | enter t ht => exact absurd ht (h.enters t)
  | other hvalue hentered henters hpending =>
    exact .inl ⟨hvalue.trans h.value_eq, hentered.trans h.entered,
      fun u hu => h.enters u ((henters u).mp hu), hpending h.pending⟩

def Inv (initial : BitVec 32) (s : ServerStart ι) : Prop :=
  s.Exchanges ∧ if initial = 0 then s.Untouched ∨ (∃ t, s.Entering t) ∨ s.Closed 1 else s.Closed 0

variable {initial : BitVec 32}

theorem new_inv (storage : Storage 32) :
    (new storage : ServerStart ι).Inv (AtomicIntegerT.new storage) := by
  have henters : ∀ u, ¬ (new storage : ServerStart ι).Enters u := fun u ⟨_, hu⟩ => by cases hu
  refine ⟨fun _ _ _ hp => ?_, ?_⟩
  · cases hp
  · split
    · next hzero => exact .inl ⟨hzero, rfl, henters, fun hcalls => absurd hcalls (lt_irrefl 0)⟩
    · next hne => exact ⟨hne, rfl, henters⟩

theorem Inv.completed (h : s.Inv initial) (hc : s.Completed) :
    s.entered.length = 1 ↔ initial = 0 := by
  have hcases := h.2
  split at hcases
  · next hzero =>
    refine iff_of_true ?_ hzero
    rcases hcases with hu | ⟨t, he⟩ | hclosed
    · obtain ⟨t, n, c, hp⟩ := hu.pending hc.1
      cases (hc.2 t).symm.trans hp
    · obtain ⟨n, hp⟩ := (he.enters_iff t).mpr rfl
      cases (hc.2 t).symm.trans hp
    · exact hclosed.entered
  · next hne =>
    refine iff_of_false ?_ hne
    rw [hcases.entered]
    exact Nat.zero_ne_one

theorem Inv.length_le (h : s.Inv initial) : s.entered.length ≤ 1 := by
  have hcases := h.2
  split at hcases
  · rcases hcases with hu | ⟨t, he⟩ | hclosed
    · rw [hu.entered]
      exact Nat.zero_le 1
    · rw [he.entered]
      exact Nat.zero_le 1
    · exact Nat.le_of_eq hclosed.entered
  · rw [hcases.entered]
    exact Nat.zero_le 1

variable [DecidableEq ι]

theorem enters_update {phase : AtomicPhase 32} (ht : ¬ s.Enters t)
    (h : s'.started.phase = Function.update s.started.phase t phase) :
    s'.Enters u ↔ s.Enters u ∨ u = t ∧ ∃ n, phase = .returning n (some 0) := by
  rw [Enters, h]
  by_cases hu : u = t
  · rw [hu, Function.update_self, or_iff_right ht, and_iff_right rfl]
  · rw [Function.update_of_ne hu, or_iff_left (fun hut => hu hut.1)]
    rfl

theorem enters_update_idle (h : s'.started.phase = Function.update s.started.phase t .idle) :
    s'.Enters u ↔ s.Enters u ∧ u ≠ t := by
  rw [Enters, h]
  by_cases hu : u = t
  · rw [hu, Function.update_self]
    exact iff_of_false (by simp) fun hut => hut.2 rfl
  · rw [Function.update_of_ne hu, and_iff_left hu]
    rfl

theorem exchanges_update {phase : AtomicPhase 32} (h : s.Exchanges)
    (hphase : s'.started.phase = Function.update s.started.phase t phase)
    (hc : ∀ n c, phase = .called n c → c = .getAndSet 1) : s'.Exchanges := by
  intro u n c hu
  rw [hphase, Function.update_apply] at hu
  split at hu
  · exact hc n c hu
  · exact h u n c hu

theorem step_moved (h : s.Exchanges) (x : StartLabel ι) :
    Yields (s.step x) fun s' => s'.Exchanges ∧ Moved s s' := by
  have hstay : s.Exchanges ∧ Moved s s := ⟨h, .other rfl rfl (fun _ => Iff.rfl) id⟩
  cases x with
  | call t =>
    cases hp : s.started.phase t with
    | idle =>
      simp only [step, SharedAtomic.step, hp]
      have ht : ¬ s.Enters t := not_enters hp (by simp)
      refine yields_pure.mpr ⟨exchanges_update h rfl ?_, .other rfl rfl (fun u => ?_) fun _ _ => ?_⟩
      · rintro n c ⟨⟩
        rfl
      · rw [enters_update ht rfl]
        simp
      · exact ⟨t, _, _, Function.update_self ..⟩
    | called | returning =>
      simp only [step, SharedAtomic.step, hp]
      exact yields_pure.mpr hstay
  | exchange t =>
    cases hp : s.started.phase t with
    | called n c =>
      obtain rfl := h t n c hp
      rw [step, SharedAtomic.step_execute hp]
      have ht : ¬ s.Enters t := not_enters hp (by simp)
      have hone : (1 : BitVec 32) ≠ 0 := by decide
      refine yields_pure.mpr
        ⟨exchanges_update h rfl (by simp), .exchange t ht hone rfl fun u => ?_⟩
      rw [enters_update ht rfl]
      simp
    | idle | returning =>
      simp only [step, SharedAtomic.step, hp]
      exact yields_pure.mpr hstay
  | test t =>
    cases hp : s.started.phase t with
    | returning n result =>
      simp only [step, SharedAtomic.step, hp]
      refine yields_pure.mpr ⟨exchanges_update h rfl (by simp), ?_⟩
      by_cases hr : result = some 0
      · exact .enter t ⟨n, hr ▸ hp⟩ rfl (if_pos hr) fun u => enters_update_idle rfl
      · have ht : ¬ s.Enters t := not_enters hp fun m hm => hr (AtomicPhase.returning.inj hm).2
        refine .other rfl (if_neg hr) (fun u => ?_) fun hpending hcalls => ?_
        · rw [enters_update ht rfl]
          simp
        · obtain ⟨u, m, c, hu⟩ := hpending hcalls
          refine ⟨u, m, c, (Function.update_of_ne ?_ ..).trans hu⟩
          rintro rfl
          cases hp.symm.trans hu
    | idle | called =>
      simp only [step, hp]
      exact yields_pure.mpr hstay

theorem Inv.step (h : s.Inv initial) (x : StartLabel ι) : Yields (s.step x) (Inv initial) := by
  refine (step_moved h.1 x).mono fun s' hs' => ⟨hs'.1, ?_⟩
  have hcases := h.2
  by_cases hzero : initial = 0
  · rw [if_pos hzero] at hcases ⊢
    rcases hcases with hu | ⟨t, he⟩ | hc
    · exact (hu.moved hs'.2).imp_right .inl
    · exact .inr ((he.moved hs'.2).imp_left fun he => ⟨t, he⟩)
    · exact .inr (.inr (hc.moved hs'.2))
  · rw [if_neg hzero] at hcases ⊢
    exact hcases.moved hs'.2

/-- However many threads call `Start`, at most one enters; when the calls have returned one has,
exactly if `started_` was 0 at first. -/
theorem entered_once (storage : Storage 32) (labels : List (StartLabel ι)) :
    Yields (run step (new storage) labels) fun s => s.entered.length ≤ 1 ∧
      (s.Completed → (s.entered.length = 1 ↔ AtomicIntegerT.new storage = 0)) := by
  refine (run_invariant (C := fun _ _ => True) (fun s x h _ => h.step x) (new_inv storage)
    (along_of_forall (fun _ _ => trivial) (new storage) labels)).mono fun s h => ?_
  exact ⟨h.length_le, h.completed⟩

end ServerStart

/-- An atomic integer counts, in the order of the primitives, exactly as long as every call agrees
with the counter, and one of the threads that call `Start` enters exactly if `started_` is 0 in a
new server. -/
theorem atomic_counter_iff {w : ℕ} [DecidableEq ι] :
    (∀ (storage : Storage w) (labels : List (AtomicLabel ι w)),
      (∀ n, Yields (run SharedAtomic.step (.new storage) (labels.take n)) SharedAtomic.Exact) ↔
        Along SharedAtomic.step (SharedAtomic.Counts storage) (.new storage) labels) ∧
      ∀ (storage : Storage 32) (labels : List (StartLabel ι)),
        Yields (run ServerStart.step (.new storage) labels) fun s => s.entered.length ≤ 1 ∧
          (s.Completed → (s.entered.length = 1 ↔ AtomicIntegerT.new storage = 0)) :=
  ⟨SharedAtomic.exact_iff, ServerStart.entered_once⟩

/-- A decrement of a new static object returns 1, and a server in memory that held 1 is not
started. -/
theorem decrement_counts_up :
    Yields (run SharedAtomic.step (.new .static : SharedAtomic Unit 32)
        [.call () .decrementAndGet, .execute (), .ret ()])
      (fun s => ¬ (counter 32).Linearizable s.history) ∧
    Yields (run ServerStart.step (.new (.dynamic 1) : ServerStart Unit)
        [.call (), .exchange (), .test ()])
      fun s => s.Completed ∧ s.entered = [] := by
  constructor
  · refine ⟨_, rfl, fun h => ?_⟩
    have hresult := h.of_single
    revert hresult
    decide
  · exact ⟨_, rfl, ⟨Nat.zero_lt_one, fun _ => rfl⟩, rfl⟩

end Dwater
