import Mathlib.Logic.Function.Basic
import Dwater.Base.Types
import Dwater.Lib.Linearization

/-! # Atomic integers

Every method of `AtomicIntegerT` executes one atomic primitive on `value_`; what it makes of the
value that the primitive returns is its own affair. No constructor sets `value_`, the decrement
adds one, and the sum of `AddAndGet` is a signed one. The results are those of a counter exactly as
long as none of this shows.
-/

set_option autoImplicit false
namespace Dwater

open Fallible

variable {w : ℕ}

/-- The storage of an object. An automatic or a dynamic one is left with what the memory held. -/
inductive Storage (w : ℕ)
  | static
  | thread
  | automatic (memory : BitVec w)
  | dynamic (memory : BitVec w)
  deriving DecidableEq, Repr

inductive AtomicPrimitive (w : ℕ)
  | valCompareAndSwap (oldValue newValue : BitVec w)
  | fetchAndAdd (x : BitVec w)
  | lockTestAndSet (newValue : BitVec w)

def AtomicPrimitive.execute (value : BitVec w) : AtomicPrimitive w → BitVec w × BitVec w
  | .valCompareAndSwap oldValue newValue => (value, if value = oldValue then newValue else value)
  | .fetchAndAdd x => (value, value + x)
  | .lockTestAndSet newValue => (value, newValue)

/-- A method, given by its primitive and what it does with the value that it returns. -/
structure AtomicMethod (w : ℕ) (α : Type) where
  primitive : AtomicPrimitive w
  finish : BitVec w → Except Fault α

def AtomicMethod.andThen {α β : Type} (m : AtomicMethod w α) (f : α → Except Fault β) :
    AtomicMethod w β :=
  ⟨m.primitive, fun value => m.finish value >>= f⟩

namespace AtomicIntegerT

def new : Storage w → BitVec w
  | .static | .thread => 0
  | .automatic memory | .dynamic memory => memory

def get : AtomicMethod w (BitVec w) := ⟨.valCompareAndSwap 0 0, pure⟩

def getAndAdd (x : BitVec w) : AtomicMethod w (BitVec w) := ⟨.fetchAndAdd x, pure⟩

def addAndGet (x : BitVec w) : AtomicMethod w (BitVec w) :=
  (getAndAdd x).andThen fun value => do
    check (value.saddOverflow x = false) (.overflow .atomic_h 32)
    return value + x

def incrementAndGet : AtomicMethod w (BitVec w) := addAndGet 1

def decrementAndGet : AtomicMethod w (BitVec w) := addAndGet 1

def add (x : BitVec w) : AtomicMethod w Unit := (getAndAdd x).andThen fun _ => pure ()

def increment : AtomicMethod w Unit := incrementAndGet.andThen fun _ => pure ()

def decrement : AtomicMethod w Unit := decrementAndGet.andThen fun _ => pure ()

def getAndSet (newValue : BitVec w) : AtomicMethod w (BitVec w) := ⟨.lockTestAndSet newValue, pure⟩

end AtomicIntegerT

inductive AtomicCall (w : ℕ)
  | get
  | getAndAdd (x : BitVec w)
  | addAndGet (x : BitVec w)
  | incrementAndGet
  | decrementAndGet
  | add (x : BitVec w)
  | increment
  | decrement
  | getAndSet (newValue : BitVec w)
  deriving DecidableEq, Repr

namespace AtomicCall

def method : AtomicCall w → AtomicMethod w (Option (BitVec w))
  | .get => AtomicIntegerT.get.andThen fun x => pure (some x)
  | .getAndAdd x => (AtomicIntegerT.getAndAdd x).andThen fun x => pure (some x)
  | .addAndGet x => (AtomicIntegerT.addAndGet x).andThen fun x => pure (some x)
  | .incrementAndGet => AtomicIntegerT.incrementAndGet.andThen fun x => pure (some x)
  | .decrementAndGet => AtomicIntegerT.decrementAndGet.andThen fun x => pure (some x)
  | .add x => (AtomicIntegerT.add x).andThen fun _ => pure none
  | .increment => AtomicIntegerT.increment.andThen fun _ => pure none
  | .decrement => AtomicIntegerT.decrement.andThen fun _ => pure none
  | .getAndSet newValue => (AtomicIntegerT.getAndSet newValue).andThen fun x => pure (some x)

/-- How far `value_` is ahead of the counter after the call, when it is `lead` before. -/
def leadAfter (lead : BitVec w) : AtomicCall w → BitVec w
  | .decrementAndGet | .decrement => lead + 2
  | .getAndSet _ => 0
  | _ => lead

/-- The call finds the counter's value where it returns it, and its sum does not overflow. -/
def Agrees (lead value : BitVec w) : AtomicCall w → Prop
  | .get | .getAndAdd _ | .getAndSet _ => lead = 0
  | .addAndGet x => lead = 0 ∧ value.saddOverflow x = false
  | .incrementAndGet => lead = 0 ∧ value.saddOverflow 1 = false
  | .decrementAndGet => lead + 2 = 0 ∧ value.saddOverflow 1 = false
  | .increment | .decrement => value.saddOverflow 1 = false
  | .add _ => True

end AtomicCall

/-- A counter modulo `2 ^ w`. -/
def counter (w : ℕ) : SequentialObject (BitVec w) (AtomicCall w) (Option (BitVec w)) where
  initial := 0
  next value
    | .get => value
    | .getAndAdd x | .addAndGet x | .add x => value + x
    | .incrementAndGet | .increment => value + 1
    | .decrementAndGet | .decrement => value - 1
    | .getAndSet newValue => newValue
  result value
    | .get | .getAndAdd _ | .getAndSet _ => some value
    | .addAndGet x => some (value + x)
    | .incrementAndGet => some (value + 1)
    | .decrementAndGet => some (value - 1)
    | .add _ | .increment | .decrement => none

/-- Where a thread is in its call. -/
inductive AtomicPhase (w : ℕ)
  | idle
  | called (n : ℕ) (c : AtomicCall w)
  | returning (n : ℕ) (result : Option (BitVec w))
  deriving DecidableEq, Repr

/-- An object that threads share. The calls are numbered, and `taken` has those whose primitive has
been executed. -/
structure SharedAtomic (ι : Type) (w : ℕ) where
  value : BitVec w
  calls : ℕ
  phase : ι → AtomicPhase w
  history : List (CallEvent (AtomicCall w) (Option (BitVec w)))
  taken : List (TakenCall (AtomicCall w) (Option (BitVec w)))

inductive AtomicLabel (ι : Type) (w : ℕ)
  | call (t : ι) (c : AtomicCall w)
  | execute (t : ι)
  | ret (t : ι)

namespace SharedAtomic

variable {ι : Type}

def new (storage : Storage w) : SharedAtomic ι w :=
  { value := AtomicIntegerT.new storage, calls := 0, phase := fun _ => .idle, history := [],
    taken := [] }

variable [DecidableEq ι]

def setPhase (s : SharedAtomic ι w) (t : ι) (phase : AtomicPhase w) : SharedAtomic ι w :=
  { s with phase := Function.update s.phase t phase }

def step (s : SharedAtomic ι w) : AtomicLabel ι w → Except Fault (SharedAtomic ι w)
  | .call t c =>
    match s.phase t with
    | .idle =>
      return { s.setPhase t (.called s.calls c) with
        calls := s.calls + 1
        history := s.history ++ [.call s.calls c] }
    | _ => return s
  | .execute t =>
    match s.phase t with
    | .called n c => do
      let (returned, value) := c.method.primitive.execute s.value
      let result ← c.method.finish returned
      return { s.setPhase t (.returning n result) with
        value := value
        taken := s.taken ++ [⟨n, c, result⟩] }
    | _ => return s
  | .ret t =>
    match s.phase t with
    | .returning n result =>
      return { s.setPhase t .idle with history := s.history ++ [.ret n result] }
    | _ => return s

/-- The calls have the results of a counter in the order of their primitives. -/
def Exact (s : SharedAtomic ι w) : Prop := (counter w).Linearizes s.taken s.history

def lead (s : SharedAtomic ι w) (storage : Storage w) : BitVec w :=
  s.taken.foldl (fun lead e => e.call.leadAfter lead) (AtomicIntegerT.new storage)

def Counts (storage : Storage w) (s : SharedAtomic ι w) : AtomicLabel ι w → Prop
  | .execute t => ∀ n c, s.phase t = .called n c → c.Agrees (s.lead storage) s.value
  | _ => True

end SharedAtomic

section Methods

variable {x y lead value : BitVec w}

theorem execute_fst (value : BitVec w) (p : AtomicPrimitive w) : (p.execute value).1 = value := by
  cases p <;> rfl

theorem addAndGet_finish_eq_ok {β : Type} {f : BitVec w → β} {b : β} :
    ((AtomicIntegerT.addAndGet y).finish value >>= fun x => pure (f x)) = .ok b ↔
      f (value + y) = b ∧ value.saddOverflow y = false := by
  change ((check (value.saddOverflow y = false) _ >>= fun _ => _) >>= fun x => pure (f x)) = _ ↔ _
  by_cases h : value.saddOverflow y = false
  · rw [check_bind_of_true h, and_iff_left h]
    exact iff_of_eq (Except.ok.injEq ..)
  · rw [check_bind_of_false h]
    exact iff_of_false nofun fun hb => h hb.2

theorem execute_snd (c : AtomicCall w) : (c.method.primitive.execute (x + lead)).2 =
    (counter w).next x c + c.leadAfter lead := by
  cases c with
  | get =>
    change (if x + lead = 0 then 0 else x + lead) = x + lead
    split
    · next h => exact h.symm
    · rfl
  | getAndAdd y | addAndGet y | add y =>
    change x + lead + y = x + y + lead
    grind
  | incrementAndGet | increment =>
    change x + lead + 1 = x + 1 + lead
    grind
  | decrementAndGet | decrement =>
    change x + lead + 1 = x - 1 + (lead + 2)
    grind
  | getAndSet newValue =>
    change newValue = newValue + 0
    grind

theorem finish_eq_iff (c : AtomicCall w) :
    c.method.finish (x + lead) = .ok ((counter w).result x c) ↔ c.Agrees lead (x + lead) := by
  cases c with
  | get | getAndAdd y | getAndSet y =>
    change Except.ok (some (x + lead)) = .ok (some x) ↔ lead = 0
    rw [Except.ok.injEq, Option.some_inj]
    grind
  | addAndGet | incrementAndGet | decrementAndGet =>
    refine addAndGet_finish_eq_ok.trans (and_congr_left fun _ => Option.some_inj.trans ?_)
    grind
  | increment | decrement =>
    change ((_ >>= fun _ => pure ()) >>= fun _ => pure none) = _ ↔ _
    rw [bind_assoc]
    exact addAndGet_finish_eq_ok.trans (and_iff_right rfl)
  | add y => exact iff_of_true rfl trivial

end Methods

namespace SharedAtomic

variable {ι : Type} {s : SharedAtomic ι w} {storage : Storage w} {t u : ι} {n : ℕ}
  {c : AtomicCall w} {result : Option (BitVec w)}

/-- What `value_` is after the calls that have been taken, and which calls the threads are in. -/
structure Inv (storage : Storage w) (s : SharedAtomic ι w) : Prop where
  exact : s.Exact
  value_eq : s.value = (counter w).after 0 s.taken + s.lead storage
  numbered : ∀ n c, .call n c ∈ s.history → n < s.calls
  called : ∀ t n c, s.phase t = .called n c →
    .call n c ∈ s.history ∧ n ∉ s.taken.map TakenCall.number
  returning : ∀ t n result, s.phase t = .returning n result →
    ∃ e ∈ s.taken, e.number = n ∧ e.result = result
  own : ∀ t u n c d, s.phase t = .called n c → s.phase u = .called n d → t = u

theorem new_inv (storage : Storage w) : (new storage : SharedAtomic ι w).Inv storage where
  exact := SequentialObject.linearizes_nil
  value_eq := (BitVec.zero_add _).symm
  numbered _ _ hc := by cases hc
  called _ _ _ hp := by cases hp
  returning _ _ _ hp := by cases hp
  own _ _ _ _ _ hp := by cases hp

theorem Inv.calls_notMem (h : s.Inv storage) : s.calls ∉ s.taken.map TakenCall.number := by
  intro hmem
  obtain ⟨e, he, heq⟩ := List.mem_map.mp hmem
  exact absurd heq (Nat.ne_of_lt (h.numbered _ _ (h.exact.called e he)))

theorem lead_concat {s' : SharedAtomic ι w} {e : TakenCall (AtomicCall w) (Option (BitVec w))}
    (h : s'.taken = s.taken ++ [e]) : s'.lead storage = e.call.leadAfter (s.lead storage) := by
  simp [lead, h]

variable [DecidableEq ι]

theorem phase_setPhase {phase after : AtomicPhase w} (h : (s.setPhase t phase).phase u = after) :
    u = t ∧ phase = after ∨ u ≠ t ∧ s.phase u = after := by
  change Function.update s.phase t phase u = after at h
  rw [Function.update_apply] at h
  split at h
  · next hu => exact .inl ⟨hu, h⟩
  · next hu => exact .inr ⟨hu, h⟩

theorem Inv.call (h : s.Inv storage) (t : ι) (c : AtomicCall w) :
    Inv storage { s.setPhase t (.called s.calls c) with
      calls := s.calls + 1
      history := s.history ++ [.call s.calls c] } where
  exact := h.exact.call h.calls_notMem c
  value_eq := h.value_eq
  numbered n d hd := by
    rcases List.mem_append.mp hd with hd | hd
    · exact Nat.lt_succ_of_lt (h.numbered n d hd)
    · cases List.mem_singleton.mp hd
      exact Nat.lt_succ_self _
  called u n d hp := by
    obtain ⟨-, hp⟩ | ⟨-, hp⟩ := phase_setPhase hp
    · cases hp
      exact ⟨List.mem_append_right _ (List.mem_singleton_self _), h.calls_notMem⟩
    · obtain ⟨hmem, hn⟩ := h.called u n d hp
      exact ⟨List.mem_append_left _ hmem, hn⟩
  returning u n result hp := by
    obtain ⟨-, hp⟩ | ⟨-, hp⟩ := phase_setPhase hp
    · cases hp
    · exact h.returning u n result hp
  own u v n d e hu hv := by
    -- the number of the new call is larger than those of the calls before
    have hold {u : ι} {d : AtomicCall w} : s.phase u ≠ .called s.calls d := fun hp =>
      lt_irrefl _ (h.numbered _ _ (h.called u _ d hp).1)
    obtain ⟨hut, hu'⟩ | ⟨-, hu'⟩ := phase_setPhase hu
    · obtain ⟨hvt, -⟩ | ⟨-, hv'⟩ := phase_setPhase hv
      · exact hut.trans hvt.symm
      · cases hu'
        exact absurd hv' hold
    · obtain ⟨-, hv'⟩ | ⟨-, hv'⟩ := phase_setPhase hv
      · cases hv'
        exact absurd hu' hold
      · exact h.own u v n d e hu' hv'

theorem Inv.take (h : s.Inv storage) (hp : s.phase t = .called n c) :
    let result := (counter w).result ((counter w).after 0 s.taken) c
    Inv storage { s.setPhase t (.returning n result) with
      value := (c.method.primitive.execute s.value).2
      taken := s.taken ++ [⟨n, c, result⟩] } where
  exact := h.exact.take (h.called t n c hp).1 (h.called t n c hp).2 rfl
  value_eq := by
    refine (congrArg (fun v => (c.method.primitive.execute v).2) h.value_eq).trans ?_
    rw [SequentialObject.after_concat]
    exact (execute_snd c).trans (congrArg _ (lead_concat (s := s) (e := ⟨n, c, _⟩) rfl).symm)
  numbered := h.numbered
  called u m d hu := by
    obtain ⟨-, hu'⟩ | ⟨hne, hu'⟩ := phase_setPhase hu
    · cases hu'
    · obtain ⟨hmem, hm⟩ := h.called u m d hu'
      refine ⟨hmem, ?_⟩
      rw [List.map_append, List.mem_append, not_or]
      refine ⟨hm, fun hmn => hne ?_⟩
      obtain rfl : m = n := List.mem_singleton.mp hmn
      exact h.own u t m d c hu' hp
  returning u m result hu := by
    obtain ⟨-, hu⟩ | ⟨-, hu⟩ := phase_setPhase hu
    · cases hu
      exact ⟨_, List.mem_append_right _ (List.mem_singleton_self _), rfl, rfl⟩
    · obtain ⟨e, he, heq⟩ := h.returning u m result hu
      exact ⟨e, List.mem_append_left _ he, heq⟩
  own u v m d e hu hv := by
    obtain ⟨-, hu⟩ | ⟨-, hu⟩ := phase_setPhase hu
    · cases hu
    · obtain ⟨-, hv⟩ | ⟨-, hv⟩ := phase_setPhase hv
      · cases hv
      · exact h.own u v m d e hu hv

theorem Inv.ret (h : s.Inv storage) (hp : s.phase t = .returning n result) :
    Inv storage { s.setPhase t .idle with history := s.history ++ [.ret n result] } where
  exact := by
    obtain ⟨e, he, rfl, rfl⟩ := h.returning t n result hp
    exact h.exact.ret he
  value_eq := h.value_eq
  numbered m d hd := by
    rcases List.mem_append.mp hd with hd | hd
    · exact h.numbered m d hd
    · cases List.mem_singleton.mp hd
  called u m d hu := by
    obtain ⟨-, hu⟩ | ⟨-, hu⟩ := phase_setPhase hu
    · cases hu
    · obtain ⟨hmem, hm⟩ := h.called u m d hu
      exact ⟨List.mem_append_left _ hmem, hm⟩
  returning u m result hu := by
    obtain ⟨-, hu⟩ | ⟨-, hu⟩ := phase_setPhase hu
    · cases hu
    · exact h.returning u m result hu
  own u v m d e hu hv := by
    obtain ⟨-, hu⟩ | ⟨-, hu⟩ := phase_setPhase hu
    · cases hu
    · obtain ⟨-, hv⟩ | ⟨-, hv⟩ := phase_setPhase hv
      · cases hv
      · exact h.own u v m d e hu hv

theorem step_execute (hp : s.phase t = .called n c) :
    s.step (.execute t) = c.method.finish s.value >>= fun result =>
      return { s.setPhase t (.returning n result) with
        value := (c.method.primitive.execute s.value).2
        taken := s.taken ++ [⟨n, c, result⟩] } := by
  simp only [step, hp]
  rw [execute_fst]

theorem Inv.step (h : s.Inv storage) {x : AtomicLabel ι w} (hx : s.Counts storage x) :
    Yields (s.step x) (Inv storage) := by
  cases x with
  | call t c =>
    cases hp : s.phase t with
    | idle =>
      simp only [SharedAtomic.step, hp]
      exact yields_pure.mpr (h.call t c)
    | called | returning =>
      simp only [SharedAtomic.step, hp]
      exact yields_pure.mpr h
  | execute t =>
    cases hp : s.phase t with
    | called n c =>
      have hfinish := (finish_eq_iff c).mpr (h.value_eq ▸ hx n c hp)
      rw [step_execute hp, h.value_eq, hfinish, ok_bind, ← h.value_eq]
      exact yields_pure.mpr (h.take hp)
    | idle | returning =>
      simp only [SharedAtomic.step, hp]
      exact yields_pure.mpr h
  | ret t =>
    cases hp : s.phase t with
    | returning n result =>
      simp only [SharedAtomic.step, hp]
      exact yields_pure.mpr (h.ret hp)
    | idle | called =>
      simp only [SharedAtomic.step, hp]
      exact yields_pure.mpr h

theorem Inv.step_differs (h : s.Inv storage) {x : AtomicLabel ι w} (hx : ¬ s.Counts storage x) :
    ¬ Yields (s.step x) Exact := by
  cases x with
  | call t c => exact absurd trivial hx
  | ret t => exact absurd trivial hx
  | execute t =>
    intro hyields
    refine hx fun n c hp => ?_
    rw [step_execute hp] at hyields
    obtain ⟨s', hs', hexact⟩ := hyields
    obtain ⟨result, hresult, hs'⟩ := bind_eq_ok hs'
    cases hs'
    obtain ⟨-, hsame⟩ := SequentialObject.legal_concat.mp hexact.legal
    obtain rfl : result = (counter w).result ((counter w).after 0 s.taken) c := hsame
    rw [h.value_eq] at hresult ⊢
    exact (finish_eq_iff c).mp hresult

/-- In every interleaving of calls the results are those of a counter that starts at 0, in the order
of the primitives, exactly as long as every call agrees with the counter. -/
theorem exact_iff (storage : Storage w) (labels : List (AtomicLabel ι w)) :
    (∀ n, Yields (run step (new storage) (labels.take n)) Exact) ↔
      Along step (Counts storage) (new storage) labels :=
  run_take_iff (E := fun _ _ => True) (fun _ _ h _ hx => h.step hx)
    (fun _ _ h _ hx => h.step_differs hx) (fun _ h => h.exact) (new_inv storage)
    (along_of_forall (fun _ _ => trivial) (new storage) labels)

end SharedAtomic

end Dwater
