import Mathlib.Algebra.Order.Group.Multiset
import Mathlib.Algebra.Order.Sub.Basic

/-! # Condition variables

A condition variable under a mutex, with the threads that are blocked in it. A
notification wakes at least one waiting thread if there is one, which still has to
get the mutex before it can go on; a thread may also wake up without having been notified.
`Covers n` says that nobody waits in vain for `n` units of a resource: as long as a thread
is waiting, at least `n` notified threads are still to run.
-/

set_option autoImplicit false

universe u

structure CondVar (ω : Type u) where
  /-- blocked, and not notified -/
  waiting : Multiset ω
  /-- notified, and still without the mutex -/
  notified : Multiset ω
  /-- woken without a notification, and still without the mutex -/
  awake : Multiset ω

namespace CondVar

variable {ω : Type u} {c : CondVar ω} {w : ω} {woken : Multiset ω} {m n : ℕ}

def new : CondVar ω := ⟨0, 0, 0⟩

def wait (c : CondVar ω) (w : ω) : CondVar ω := { c with waiting := w ::ₘ c.waiting }

def notifyAll (c : CondVar ω) : CondVar ω :=
  { c with waiting := 0, notified := c.notified + c.waiting }

def threads (c : CondVar ω) : Multiset ω := c.waiting + c.notified + c.awake

def Covers (c : CondVar ω) (n : ℕ) : Prop := c.waiting ≠ 0 → n ≤ c.notified.card

theorem covers_new : (new : CondVar ω).Covers n := fun h => absurd rfl h

theorem Covers.mono (h : c.Covers n) (hle : m ≤ n) : c.Covers m := fun hw => hle.trans (h hw)

theorem covers_zero : c.Covers 0 := fun _ => Nat.zero_le _

theorem covers_of_waiting (h : c.waiting = 0) : c.Covers n := fun hne => absurd h hne

theorem threads_wait : (c.wait w).threads = w ::ₘ c.threads := by
  simp [threads, wait]

theorem threads_notifyAll : c.notifyAll.threads = c.threads := by
  simp [threads, notifyAll, add_comm]

theorem notMem_waiting (h : c.threads.Nodup) (hw : w ∈ c.notified) : w ∉ c.waiting := by
  have hdisjoint := (Multiset.nodup_add.mp (Multiset.nodup_add.mp h).1).2.2
  exact fun hmem => Multiset.disjoint_left.mp hdisjoint hmem hw

section Wake

variable [DecidableEq ω]

def Wakes (c : CondVar ω) (woken : Multiset ω) : Prop :=
  woken ≤ c.waiting ∧ (c.waiting ≠ 0 → woken ≠ 0)

instance : Decidable (c.Wakes woken) := inferInstanceAs (Decidable (_ ∧ _))

def notify (c : CondVar ω) (woken : Multiset ω) : CondVar ω :=
  { c with waiting := c.waiting - woken, notified := c.notified + woken }

def wakeUp (c : CondVar ω) (w : ω) : CondVar ω :=
  { c with waiting := c.waiting.erase w, awake := w ::ₘ c.awake }

def Resumable (c : CondVar ω) (w : ω) : Prop := w ∈ c.notified ∨ w ∈ c.awake

instance : Decidable (c.Resumable w) := inferInstanceAs (Decidable (_ ∨ _))

theorem Resumable.wakeUp {v : ω} (h : c.Resumable w) : (c.wakeUp v).Resumable w :=
  h.imp id fun ha => Multiset.mem_cons_of_mem ha

def resume (c : CondVar ω) (w : ω) : CondVar ω :=
  if w ∈ c.notified then { c with notified := c.notified.erase w }
  else { c with awake := c.awake.erase w }

theorem waiting_notify_of_zero (h : c.waiting = 0) : (c.notify woken).waiting = 0 := by
  simp only [notify, h]
  exact Multiset.zero_sub woken

theorem waiting_wakeUp_of_zero (h : c.waiting = 0) : (c.wakeUp w).waiting = 0 := by
  simp [wakeUp, h]

theorem Covers.notify (h : c.Covers n) (hw : c.Wakes woken) : (c.notify woken).Covers (n + 1) := by
  intro hne
  have hwaiting : c.waiting ≠ 0 := by
    rintro hzero
    exact hne (waiting_notify_of_zero hzero)
  have hcard := Multiset.card_pos.mpr (hw.2 hwaiting)
  have hn := h hwaiting
  simp only [CondVar.notify, Multiset.card_add]
  omega

theorem Covers.wakeUp (h : c.Covers n) : (c.wakeUp w).Covers n := by
  intro hne
  refine h ?_
  rintro hzero
  exact hne (waiting_wakeUp_of_zero hzero)

theorem Covers.resume (h : c.Covers n) : (c.resume w).Covers (n - 1) := by
  intro hne
  unfold CondVar.resume at hne ⊢
  split at hne
  · next hmem =>
    rw [if_pos hmem]
    have hcard := Multiset.card_erase_add_one hmem
    have hn := h hne
    simp only
    omega
  · next hmem =>
    rw [if_neg hmem]
    exact (Nat.sub_le n 1).trans (h hne)

theorem waiting_resume : (c.resume w).waiting = c.waiting := by
  unfold resume
  split <;> rfl

theorem threads_notify (h : c.Wakes woken) : (c.notify woken).threads = c.threads := by
  unfold threads notify
  simp only
  rw [add_comm c.notified, ← add_assoc, tsub_add_cancel_of_le h.1]

theorem threads_wakeUp (h : w ∈ c.waiting) : (c.wakeUp w).threads = c.threads := by
  unfold threads wakeUp
  simp only
  rw [Multiset.add_cons, ← Multiset.cons_add, ← Multiset.cons_add, Multiset.cons_erase h]

theorem threads_resume (h : c.Resumable w) : w ::ₘ (c.resume w).threads = c.threads := by
  unfold threads resume
  split
  · next hmem =>
    simp only
    rw [← Multiset.cons_add, ← Multiset.add_cons, Multiset.cons_erase hmem]
  · next hmem =>
    simp only
    rw [← Multiset.add_cons, Multiset.cons_erase (h.resolve_left hmem)]

end Wake

end CondVar
