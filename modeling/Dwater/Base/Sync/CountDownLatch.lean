import Mathlib.Algebra.Ring.Int.Defs
import Dwater.Base.Sync.MutexLock

/-! # Countdown latches

Threads wait until a count has been taken down to zero. In the order in which they return, the
calls give the results of a latch that a single thread uses, and when the count is
down nobody is left waiting.
-/

set_option autoImplicit false
namespace Dwater

open Fallible

/-- What stops a thread. -/
inductive ThreadFault
  /-- `count_` is decremented below the least `int`. -/
  | countOverflow

  /-- `assert(tid_ > 0)`. -/
  | noTid

  /-- `assert(holder_ == 0)`. -/
  | destroyedLocked

  /-- Something of a `Thread` is used that has been destroyed. -/
  | useAfterDestroy
  deriving DecidableEq, Repr

inductive LatchCall
  | wait
  | countDown
  | getCount
  deriving DecidableEq, Repr

inductive LatchResult
  | waited
  | counted
  | count (n : ℤ)
  deriving DecidableEq, Repr

/-- The part of a method under the mutex, over `count_`. -/
abbrev LatchCode := SectionCode ℤ Unit ThreadFault LatchResult

namespace LatchCode

/-- `Wait`, from the condition of its loop. -/
def wait : LatchCode :=
  .access id fun count => if 0 < count then .wait () else .done none .waited

def countDown : LatchCode :=
  .access id fun count =>
    if count = -2 ^ 31 then .fail .countOverflow
    else .access (· - 1) fun _ => .access id fun count =>
      .done (if count = 0 then some (.all ()) else none) .counted

def getCount : LatchCode := .access id fun count => .done none (.count count)

def body : LatchCall → LatchCode
  | .wait => wait
  | .countDown => countDown
  | .getCount => getCount

variable {n : ℤ}

theorem eval_wait_blocks (h : 0 < n) : wait.eval n = .ok (n, .wait ()) := by
  simp [wait, SectionCode.eval, h]

theorem eval_wait_passes (h : n ≤ 0) : wait.eval n = .ok (n, .done none .waited) := by
  simp [wait, SectionCode.eval, Int.not_lt.mpr h]

theorem eval_countDown (h : n ≠ -2 ^ 31) :
    countDown.eval n =
      .ok (n - 1, .done (if n - 1 = 0 then some (.all ()) else none) .counted) := by
  simp only [countDown, SectionCode.eval, if_neg h]
  rfl

theorem eval_countDown_least : countDown.eval (-2 ^ 31) = .error .countOverflow := by
  simp [countDown, SectionCode.eval]

theorem eval_error {m : LatchCall} {e : ThreadFault} (h : (body m).eval n = .error e) :
    e = .countOverflow ∧ n = -2 ^ 31 := by
  cases m with
  | wait =>
    by_cases hcount : 0 < n
    · rw [body, eval_wait_blocks hcount] at h
      cases h
    · rw [body, eval_wait_passes (Int.not_lt.mp hcount)] at h
      cases h
  | countDown =>
    by_cases hleast : n = -2 ^ 31
    · rw [body, hleast, eval_countDown_least] at h
      cases h
      exact ⟨rfl, hleast⟩
    · rw [body, eval_countDown hleast] at h
      cases h
  | getCount => cases h

end LatchCode

/-- A latch with the count `n` gives these results to a single thread. -/
def LatchResult.Legal : ℤ → List LatchResult → Prop
  | _, [] => True
  | n, .waited :: rs => n ≤ 0 ∧ Legal n rs
  | n, .counted :: rs => Legal (n - 1) rs
  | n, .count k :: rs => k = n ∧ Legal n rs

namespace LatchResult

variable {n : ℤ} {rs rs' : List LatchResult}

theorem legal_append : Legal n (rs ++ rs') ↔ Legal n rs ∧ Legal (n - rs.count .counted) rs' := by
  induction rs generalizing n with
  | nil => simp [Legal]
  | cons r rs ih =>
    cases r with
    | waited => simp [Legal, ih, and_assoc]
    | counted =>
      have hcount : n - 1 - (rs.count .counted : ℤ) = n - ((rs.count .counted + 1 : ℕ) : ℤ) := by
        push_cast
        omega
      simp [Legal, ih, hcount]
    | count k => simp [Legal, ih, and_assoc]

theorem Legal.of_prefix (h : Legal n rs') (hp : rs <+: rs') : Legal n rs := by
  obtain ⟨back, rfl⟩ := hp
  exact (legal_append.mp h).1

theorem Legal.waited (h : Legal n rs) (hw : .waited ∈ rs) : n ≤ rs.count .counted := by
  obtain ⟨front, back, rfl⟩ := List.append_of_mem hw
  have hle := (legal_append.mp h).2.1
  rw [List.count_append]
  push_cast
  omega

end LatchResult

/-- A `CountDownLatch`, whose methods run one access at a time. -/
abbrev CountDownLatch (τ : Type) :=
  LockedObject τ Unit ℤ ThreadFault LatchCall LatchResult

/-- A `CountDownLatch`, whose methods run one section at a time. -/
abbrev LatchMonitor (τ : Type) := AtomicMonitor τ Unit ℤ LatchCall LatchResult

variable {τ : Type} [DecidableEq τ]

structure LatchMonitor.Inv (n : ℤ) (a : LatchMonitor τ) : Prop where
  legal : LatchResult.Legal n (a.results.map (·.2))
  data_eq : a.data = n - (a.results.map (·.2)).count .counted
  placed : Placed a.cond a.call
  waits : ∀ t m c, a.call t = some (m, c) → m = .wait
  released : a.data ≤ 0 → (a.cond ()).waiting = 0

section Inv

variable {n : ℤ} {a a' : LatchMonitor τ} {t : τ} {m : LatchCall} {origin : Option Unit}
  {woken : Multiset τ}

omit [DecidableEq τ] in
theorem latch_inv_new :
    LatchMonitor.Inv n (⟨n, fun _ => .new, fun _ => none, []⟩ : LatchMonitor τ) where
  legal := trivial
  data_eq := by simp
  placed := placed_new
  waits := fun _ _ _ h => nomatch h
  released := fun _ => rfl

theorem waiting_resumed (cond : Unit → CondVar τ) :
    (resumed cond origin t ()).waiting = (cond ()).waiting := by
  cases origin with
  | none => rfl
  | some c => simp [resumed, CondVar.waiting_resume]

theorem waits_update {call : τ → Option (LatchCall × Unit)}
    (h : ∀ t m c, call t = some (m, c) → m = .wait) {o : Option (LatchCall × Unit)}
    (ho : o = none ∨ o = some (.wait, ())) :
    ∀ u m c, Function.update call t o u = some (m, c) → m = .wait := by
  intro u m c hu
  by_cases hut : u = t
  · subst hut
    rw [Function.update_self] at hu
    rcases ho with rfl | rfl
    · cases hu
    · cases hu
      rfl
  · rw [Function.update_of_ne hut] at hu
    exact h u m c hu

namespace LatchMonitor

theorem Inv.wait (h : a.Inv n) (hcall : a.call t = origin.map (.wait, ·))
    (hres : ∀ c, origin = some c → (a.cond c).Resumable t)
    (hs : a.runSection LatchCode.body t .wait origin woken = .ok a') : a'.Inv n := by
  have hplaced := AtomicMonitor.runSection_placed h.placed hcall hres hs
  simp only [AtomicMonitor.runSection, LatchCode.body] at hs
  by_cases hcount : 0 < a.data
  · rw [LatchCode.eval_wait_blocks hcount] at hs
    cases hs
    exact {
      legal := h.legal
      data_eq := h.data_eq
      placed := hplaced
      waits := waits_update h.waits (.inr rfl)
      released := fun hle => absurd hcount (Int.not_lt.mpr hle) }
  · have hle := Int.not_lt.mp hcount
    rw [LatchCode.eval_wait_passes hle] at hs
    cases hs
    have hdata := h.data_eq
    exact {
      legal := by
        rw [List.map_append]
        exact LatchResult.legal_append.mpr ⟨h.legal, by omega, trivial⟩
      data_eq := by simpa using hdata
      placed := hplaced
      waits := waits_update h.waits (.inl rfl)
      released := fun hle => (waiting_resumed a.cond).trans (h.released hle) }

theorem Inv.countDown (h : a.Inv n) (hcall : a.call t = none) (hne : a.data ≠ -2 ^ 31)
    (hs : a.runSection LatchCode.body t .countDown none woken = .ok a') : a'.Inv n := by
  have hmap : a.call t = Option.map (LatchCall.countDown, ·) none := hcall
  have hplaced := AtomicMonitor.runSection_placed h.placed hmap (by simp) hs
  simp only [AtomicMonitor.runSection, LatchCode.body] at hs
  rw [LatchCode.eval_countDown hne] at hs
  cases hs
  have hdata := h.data_eq
  exact {
    legal := by
      rw [List.map_append]
      exact LatchResult.legal_append.mpr ⟨h.legal, trivial⟩
    data_eq := by
      simp only [List.map_append, List.map_cons, List.map_nil, List.count_append,
        List.count_singleton_self]
      push_cast
      omega
    placed := hplaced
    waits := waits_update h.waits (.inl rfl)
    released := fun hle => by
      -- the decrement that ends at zero has found threads waiting, and no later one has
      by_cases hzero : a.data - 1 = 0
      · simp [hzero, signalled, CondVar.notifyAll]
      · have hbelow : a.data - 1 ≤ 0 := hle
        simp only [if_neg hzero]
        exact h.released (by omega) }

theorem Inv.getCount (h : a.Inv n) (hcall : a.call t = none)
    (hs : a.runSection LatchCode.body t .getCount none woken = .ok a') : a'.Inv n := by
  have hmap : a.call t = Option.map (LatchCall.getCount, ·) none := hcall
  have hplaced := AtomicMonitor.runSection_placed h.placed hmap (by simp) hs
  simp only [AtomicMonitor.runSection, LatchCode.body] at hs
  cases hs
  have hdata := h.data_eq
  exact {
    legal := by
      rw [List.map_append]
      exact LatchResult.legal_append.mpr ⟨h.legal, hdata, trivial⟩
    data_eq := by simpa using hdata
    placed := hplaced
    waits := waits_update h.waits (.inl rfl)
    released := h.released }

theorem Inv.runSection (h : a.Inv n) (hcall : a.call t = origin.map (m, ·))
    (hres : ∀ c, origin = some c → (a.cond c).Resumable t) :
    Avoids (· ≠ .countOverflow) (a.runSection LatchCode.body t m origin woken) (Inv n) := by
  have horigin : m ≠ .wait → origin = none := by
    rintro hm
    cases origin with
    | none => rfl
    | some c => exact absurd (h.waits t m c hcall) hm
  refine ⟨fun e he => ?_, fun a' hs => ?_⟩
  · rintro hne
    cases heval : (LatchCode.body m).eval a.data with
    | error e' =>
      rw [AtomicMonitor.runSection, heval] at he
      cases he
      exact hne (LatchCode.eval_error heval).1
    | ok r =>
      rw [AtomicMonitor.runSection, heval] at he
      obtain ⟨d, _ | _⟩ := r <;> cases he
  · cases m with
    | wait => exact h.wait hcall hres hs
    | countDown =>
      obtain rfl := horigin (by simp)
      refine h.countDown hcall (fun hleast => ?_) hs
      rw [AtomicMonitor.runSection, LatchCode.body, hleast, LatchCode.eval_countDown_least] at hs
      cases hs
    | getCount =>
      obtain rfl := horigin (by simp)
      exact h.getCount hcall hs

theorem Inv.step (h : a.Inv n) (y : MonitorLabel τ LatchCall) :
    Avoids (· ≠ .countOverflow) (AtomicMonitor.step LatchCode.body a y) (Inv n) := by
  cases y with
  | enter t m woken =>
    simp only [AtomicMonitor.step]
    split
    · next hcall =>
      have hmap : a.call t = Option.map (m, ·) none := hcall
      exact h.runSection hmap (by simp)
    · exact avoids_ok.mpr h
  | resume t woken =>
    simp only [AtomicMonitor.step]
    split
    · exact avoids_ok.mpr h
    · next m c hcall =>
      split
      · next hres =>
        have hmap : a.call t = Option.map (m, ·) (some c) := hcall
        refine h.runSection hmap fun c' hc => ?_
        cases hc
        exact hres
      · exact avoids_ok.mpr h
  | wakeUp t =>
    simp only [AtomicMonitor.step]
    split
    · exact avoids_ok.mpr h
    · split
      · next hmem =>
        refine avoids_ok.mpr ⟨h.legal, h.data_eq, h.placed.of_threads (CondVar.threads_wakeUp hmem),
          h.waits, fun hle => ?_⟩
        simp [CondVar.wakeUp, h.released hle]
      · exact avoids_ok.mpr h

end LatchMonitor

end Inv

namespace CountDownLatch

variable {n : ℤ} {s s₁ : CountDownLatch τ} {a : LatchMonitor τ} {t : τ} {origin : Option Unit}

/-- When only this thread goes on, its call returns. -/
def Passes (s : CountDownLatch τ) (t : τ) : Prop :=
  ∃ k, Yields (run (LockedObject.step LatchCode.body) s (List.replicate k (.advance t 0)))
    fun s' => s'.thread t = .outside ∧ s'.lock.mutex = none

theorem Passes.of_step (hs : s.advance LatchCode.body t 0 = .ok s₁) (h : s₁.Passes t) :
    s.Passes t := by
  obtain ⟨k, hk⟩ := h
  have hstep : LockedObject.step LatchCode.body s (.advance t 0) = .ok s₁ := hs
  refine ⟨k + 1, ?_⟩
  rwa [List.replicate_succ, run_cons_of_ok hstep]

theorem passes_of_unlocking {r : LatchResult} (hphase : s.thread t = .unlocking r) :
    s.Passes t := by
  refine .of_step (by rw [LockedObject.advance, hphase]; rfl) ⟨0, yields_ok.mpr ⟨?_, rfl⟩⟩
  exact Function.update_self ..

theorem passes_of_leaving {r : LatchResult} (hphase : s.thread t = .leaving r) : s.Passes t := by
  refine .of_step (by rw [LockedObject.advance, hphase]; rfl) ?_
  exact passes_of_unlocking (Function.update_self ..)

theorem passes_of_done {g : Option (Signal Unit)} {r : LatchResult} {m : LatchCall}
    (hphase : s.thread t = .running m origin (.done g r)) : s.Passes t := by
  refine .of_step (by rw [LockedObject.advance, hphase]; rfl) ?_
  exact passes_of_leaving (Function.update_self ..)

theorem passes_of_running (hphase : s.thread t = .running .wait origin LatchCode.wait)
    (hcount : s.data ≤ 0) : s.Passes t := by
  have hnext : (if 0 < s.data then SectionCode.wait () else .done none .waited : LatchCode) =
      .done none .waited := if_neg (Int.not_lt.mpr hcount)
  refine .of_step (by rw [LockedObject.advance, hphase]; rfl) ?_
  exact passes_of_done
    ((Function.update_self ..).trans (congrArg (LockPhase.running LatchCall.wait origin) hnext))

/-- A thread in `Wait` that gets the mutex finds the count down. -/
theorem passes_of_locked (hphase : s.thread t = .locked .wait origin) (hcount : s.data ≤ 0) :
    s.Passes t := by
  refine .of_step (by rw [LockedObject.advance, hphase]; rfl) ?_
  exact passes_of_running (Function.update_self ..) hcount

theorem passes_of_countDown (hphase : s.thread t = .locking .countDown)
    (hfree : s.lock.mutex = none) (hleast : s.data ≠ -2 ^ 31) : s.Passes t := by
  have hnext : (if s.data = -2 ^ 31 then .fail .countOverflow
      else .access (· - 1) fun _ => .access id fun count =>
        .done (if count = 0 then some (.all ()) else none) .counted : LatchCode) = _ :=
    if_neg hleast
  refine .of_step (by rw [LockedObject.advance, hphase]; exact if_pos hfree) ?_
  refine .of_step (by simp only [LockedObject.advance, LockedObject.setPhase,
    Function.update_self]; rfl) ?_
  refine .of_step (by simp only [LockedObject.advance, LockedObject.setPhase,
    Function.update_self, LatchCode.body, LatchCode.countDown, hnext]; rfl) ?_
  refine .of_step (by simp only [LockedObject.advance, LockedObject.setPhase,
    Function.update_self]; rfl) ?_
  refine .of_step (by simp only [LockedObject.advance, LockedObject.setPhase,
    Function.update_self]; rfl) ?_
  exact passes_of_done (Function.update_self ..)

/-- What the calls have returned is what a latch for one thread gives, nobody is left waiting once
the count is down, and then each thread in `Wait` can go on. -/
structure Opens (n : ℤ) (s : CountDownLatch τ) : Prop where
  guarded : s.Guarded LatchCode.body
  legal : LatchResult.Legal n (s.returned.map (·.2))
  released : s.lock.mutex = none → s.data ≤ 0 → (s.cond ()).waiting = 0
  passes : ∀ t, s.lock.mutex = none → s.data ≤ 0 →
    s.thread t = .locking .wait ∨ s.thread t = .blocked .wait () → s.Passes t

theorem opens_of_refines (hs : s.Refines LatchCode.body a) (ha : a.Inv n) : s.Opens n := by
  have hreleased : s.lock.mutex = none → s.data ≤ 0 → (s.cond ()).waiting = 0 := by
    intro hfree hcount
    rw [← hs.cond_eq]
    rw [← (hs.free hfree).1] at hcount
    exact ha.released hcount
  refine ⟨hs.guarded, ha.legal.of_prefix (hs.returned_prefix.map _), hreleased, ?_⟩
  rintro t hfree hcount (hphase | hphase)
  · refine .of_step (by rw [LockedObject.advance, hphase]; exact if_pos hfree) ?_
    exact passes_of_locked (Function.update_self ..) hcount
  · have hresumable : (s.cond ()).Resumable t := by
      have hcall : a.call t = some (.wait, ()) := by rw [hs.call_eq t, hphase]; rfl
      have hmem := (ha.placed.mem_iff t ()).mpr ⟨.wait, hcall⟩
      rw [hs.cond_eq, CondVar.threads, hreleased hfree hcount, zero_add] at hmem
      exact Multiset.mem_add.mp hmem
    refine .of_step (by rw [LockedObject.advance, hphase]; exact if_pos ⟨hfree, hresumable⟩) ?_
    exact passes_of_locked (Function.update_self ..) hcount

end CountDownLatch

/-- However the accesses of the methods are interleaved, and unless the count goes below the least
`int`. -/
theorem latch_opens (n : ℤ) (labels : List (LockLabel τ LatchCall)) :
    Avoids (· ≠ .countOverflow) (run (LockedObject.step LatchCode.body) (.new n) labels)
      fun s => CountDownLatch.Opens n s := by
  obtain ⟨ys, hsections⟩ := LockedObject.run_refines_atomic LatchCode.body n labels
  have hinv : Avoids (· ≠ .countOverflow) (run (AtomicMonitor.step LatchCode.body)
      (⟨n, fun _ => .new, fun _ => none, []⟩ : LatchMonitor τ) ys) (LatchMonitor.Inv n) :=
    avoids_run (C := fun _ _ => True) (fun _ y h _ => LatchMonitor.Inv.step h y) latch_inv_new
      (along_of_forall (fun _ _ => trivial) _ ys)
  exact hsections.avoids hinv fun s a hs ha => CountDownLatch.opens_of_refines hs ha

end Dwater
