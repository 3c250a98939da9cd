import Dwater.Lib.Monitor

/-! # Mutexes that know their holder

A `MutexLock` keeps the thread that has locked it in `holder_`, which is written between the lock
and the unlock of the mutex itself, and given up during `Wait`. Methods of an object run under the
mutex from the first access of its data to a wait or to their end. Whatever the order in which
threads take the steps of their methods, `holder_` names a thread exactly while the thread is in
its section, and the sections take effect as if each were one step.
-/

set_option autoImplicit false
namespace Dwater

open Fallible

variable {τ κ σ ε μ ρ : Type}

/-- `mutex` is the thread that owns the mutex of the system, and `holder` what `holder_` says. -/
structure MutexLock (τ : Type) where
  mutex : Option τ
  holder : Option τ
  deriving DecidableEq, Repr

namespace MutexLock

def new : MutexLock τ := ⟨none, none⟩

def assignHolder (l : MutexLock τ) (t : τ) : MutexLock τ := { l with holder := some t }

def unassignHolder (l : MutexLock τ) : MutexLock τ := { l with holder := none }

/-- `pthread_mutex_lock` returns. -/
def acquire (l : MutexLock τ) (t : τ) : MutexLock τ := { l with mutex := some t }

def release (l : MutexLock τ) : MutexLock τ := { l with mutex := none }

def isLockedByThisThread [DecidableEq τ] (l : MutexLock τ) (t : τ) : Bool := l.holder = some t

end MutexLock

/-- Where a thread is in a method. -/
inductive LockPhase (σ κ ε μ ρ : Type)
  | outside

  /-- In `pthread_mutex_lock`. -/
  | locking (m : μ)

  /-- It has got the mutex, at first or after a wait, and is about to assign the holder. -/
  | locked (m : μ) (origin : Option κ)

  | running (m : μ) (origin : Option κ) (code : SectionCode σ κ ε ρ)

  /-- In `Wait`, about to call `pthread_cond_wait`. -/
  | waiting (m : μ) (origin : Option κ) (c : κ)

  /-- In `pthread_cond_wait`. -/
  | blocked (m : μ) (c : κ)

  /-- About to unassign the holder, at the end of the method. -/
  | leaving (r : ρ)

  /-- About to unlock the mutex. -/
  | unlocking (r : ρ)

/-- An object with a `MutexLock`, and the results that its methods have returned. -/
structure LockedObject (τ κ σ ε μ ρ : Type) where
  data : σ
  lock : MutexLock τ
  cond : κ → CondVar τ
  thread : τ → LockPhase σ κ ε μ ρ
  returned : List (τ × ρ)

inductive LockLabel (τ μ : Type)
  | call (t : τ) (m : μ)

  /-- the thread takes its next step, when it can -/
  | advance (t : τ) (woken : Multiset τ)

  /-- a thread wakes up by itself -/
  | wakeUp (t : τ)

namespace LockedObject

variable [DecidableEq τ] [DecidableEq κ]

def new (data : σ) : LockedObject τ κ σ ε μ ρ :=
  ⟨data, .new, fun _ => .new, fun _ => .outside, []⟩

def setPhase (s : LockedObject τ κ σ ε μ ρ) (t : τ) (p : LockPhase σ κ ε μ ρ) :
    LockedObject τ κ σ ε μ ρ :=
  { s with thread := Function.update s.thread t p }

def advance (body : μ → SectionCode σ κ ε ρ) (s : LockedObject τ κ σ ε μ ρ) (t : τ)
    (woken : Multiset τ) : Except ε (LockedObject τ κ σ ε μ ρ) :=
  match s.thread t with
  | .outside => return s
  | .locking m =>
    if s.lock.mutex = none then
      return { s.setPhase t (.locked m none) with lock := s.lock.acquire t }
    else return s
  | .blocked m c =>
    if s.lock.mutex = none ∧ (s.cond c).Resumable t then
      return { s.setPhase t (.locked m (some c)) with lock := s.lock.acquire t }
    else return s
  | .locked m origin =>
    return { s.setPhase t (.running m origin (body m)) with lock := s.lock.assignHolder t }
  | .running m origin (.access f next) =>
    return { s.setPhase t (.running m origin (next s.data)) with data := f s.data }
  | .running _ _ (.fail e) => throw e
  | .running m origin (.wait c) =>
    return { s.setPhase t (.waiting m origin c) with lock := s.lock.unassignHolder }
  | .running _ origin (.done g r) =>
    return { s.setPhase t (.leaving r) with
      cond := signalled (resumed s.cond origin t) g woken }
  | .waiting m origin c =>
    let cond := resumed s.cond origin t
    return { s.setPhase t (.blocked m c) with
      cond := Function.update cond c ((cond c).wait t), lock := s.lock.release }
  | .leaving r =>
    return { s.setPhase t (.unlocking r) with lock := s.lock.unassignHolder }
  | .unlocking r =>
    return { s.setPhase t .outside with
      lock := s.lock.release, returned := s.returned ++ [(t, r)] }

def step (body : μ → SectionCode σ κ ε ρ) (s : LockedObject τ κ σ ε μ ρ) :
    LockLabel τ μ → Except ε (LockedObject τ κ σ ε μ ρ)
  | .call t m =>
    match s.thread t with
    | .outside => return s.setPhase t (.locking m)
    | _ => return s
  | .advance t woken => s.advance body t woken
  | .wakeUp t =>
    match s.thread t with
    | .blocked _ c =>
      if t ∈ (s.cond c).waiting then
        return { s with cond := Function.update s.cond c ((s.cond c).wakeUp t) }
      else return s
    | _ => return s

end LockedObject

namespace LockPhase

def Owns : LockPhase σ κ ε μ ρ → Prop
  | .locked _ _ | .running _ _ _ | .waiting _ _ _ | .leaving _ | .unlocking _ => True
  | .outside | .locking _ | .blocked _ _ => False

def Inside : LockPhase σ κ ε μ ρ → Prop
  | .running _ _ _ | .leaving _ => True
  | _ => False

/-- The call that the thread has waited in and has not gone on with, and for what. -/
def waitsIn : LockPhase σ κ ε μ ρ → Option (μ × κ)
  | .locked m origin | .running m origin _ | .waiting m origin _ => origin.map (m, ·)
  | .blocked m c => some (m, c)
  | .outside | .locking _ | .leaving _ | .unlocking _ => none

def InCall (m : μ) (R : ρ → Prop) : LockPhase σ κ ε μ ρ → Prop
  | .outside => False
  | .locking m' | .locked m' _ | .waiting m' _ _ | .blocked m' _ => m' = m
  | .running m' _ code => m' = m ∧ code.Returns R
  | .leaving r | .unlocking r => R r

end LockPhase

namespace LockedObject

/-- What the thread that owns the mutex has done of its section: the rest of it leads to the same
end, and after the end its result is still to be returned. -/
def Partial (body : μ → SectionCode σ κ ε ρ) (s : LockedObject τ κ σ ε μ ρ)
    (a : AtomicMonitor τ κ σ μ ρ) (t : τ) : Prop :=
  match s.thread t with
  | .running m _ code => (body m).eval a.data = code.eval s.data ∧ a.results = s.returned
  | .waiting m _ c => (body m).eval a.data = .ok (s.data, .wait c) ∧ a.results = s.returned
  | .leaving r | .unlocking r => a.data = s.data ∧ a.results = s.returned ++ [(t, r)]
  | .locked _ _ | .outside | .locking _ | .blocked _ _ => a.data = s.data ∧ a.results = s.returned

/-- The atomic monitor has run the sections that have come to their end. -/
structure Refines (body : μ → SectionCode σ κ ε ρ) (s : LockedObject τ κ σ ε μ ρ)
    (a : AtomicMonitor τ κ σ μ ρ) : Prop where
  owner_iff : ∀ t, s.lock.mutex = some t ↔ (s.thread t).Owns
  holder_iff : ∀ t, s.lock.holder = some t ↔ (s.thread t).Inside
  cond_eq : a.cond = s.cond
  call_eq : ∀ t, a.call t = (s.thread t).waitsIn
  resumable : ∀ t m c, s.lock.mutex = some t → (s.thread t).waitsIn = some (m, c) →
    (s.cond c).Resumable t
  free : s.lock.mutex = none → a.data = s.data ∧ a.results = s.returned
  owned : ∀ t, s.lock.mutex = some t → s.Partial body a t

variable {body : μ → SectionCode σ κ ε ρ} {s s' : LockedObject τ κ σ ε μ ρ}
  {a a' : AtomicMonitor τ κ σ μ ρ} {t u : τ} {m : μ} {p : LockPhase σ κ ε μ ρ} {woken : Multiset τ}

theorem new_refines (data : σ) : (new data : LockedObject τ κ σ ε μ ρ).Refines body
    ⟨data, fun _ => .new, fun _ => none, []⟩ := by
  refine ⟨fun t => ?_, fun t => ?_, rfl, fun _ => rfl, fun t m c hm => ?_, fun _ => ⟨rfl, rfl⟩,
    fun t hm => ?_⟩
  · simp [new, MutexLock.new, LockPhase.Owns]
  · simp [new, MutexLock.new, LockPhase.Inside]
  · cases hm
  · cases hm

theorem owns_of_inside (h : p.Inside) : p.Owns := by
  cases p with
  | running | leaving => trivial
  | _ => cases h

theorem Refines.not_owns (h : s.Refines body a) (ht : s.lock.mutex = some t) (hu : u ≠ t) :
    ¬ (s.thread u).Owns := by
  intro howns
  have hmutex := (h.owner_iff u).mpr howns
  rw [ht] at hmutex
  exact hu (Option.some.inj hmutex).symm

theorem Refines.owned_partial (h : s.Refines body a) (howns : (s.thread t).Owns) :
    s.lock.mutex = some t ∧ s.Partial body a t :=
  ⟨(h.owner_iff t).mpr howns, h.owned t ((h.owner_iff t).mpr howns)⟩

/-- At most one result is still to be returned. -/
theorem Refines.exists_last (h : s.Refines body a) :
    ∃ last, a.results = s.returned ++ last ∧ last.length ≤ 1 := by
  cases hmutex : s.lock.mutex with
  | none => exact ⟨[], by simpa using (h.free hmutex).2, Nat.zero_le 1⟩
  | some t =>
    have hprogress := h.owned t hmutex
    unfold Partial at hprogress
    split at hprogress
    case h_3 r _ | h_4 r _ => exact ⟨[(t, r)], hprogress.2, le_rfl⟩
    all_goals exact ⟨[], by simpa using hprogress.2, Nat.zero_le 1⟩

theorem Refines.returned_prefix (h : s.Refines body a) : s.returned <+: a.results := by
  obtain ⟨last, hlast, -⟩ := h.exists_last
  exact ⟨last, hlast.symm⟩

variable [DecidableEq τ]

theorem Refines.own (h : s.Refines body a) (howns : (s.thread t).Owns)
    (hthread : s'.thread = Function.update s.thread t p) (hp : p.Owns)
    (hmutex : s'.lock.mutex = s.lock.mutex)
    (hholder : s'.lock.holder = some t ↔ p.Inside) (hnone : ¬ p.Inside → s'.lock.holder = none)
    (hcond : a'.cond = s'.cond) (hcall : a'.call = Function.update a.call t p.waitsIn)
    (hresumable : ∀ m c, p.waitsIn = some (m, c) → (s'.cond c).Resumable t)
    (hprogress : s'.Partial body a' t) : s'.Refines body a' := by
  have ht : s.lock.mutex = some t := (h.owner_iff t).mpr howns
  refine ⟨fun u => ?_, fun u => ?_, hcond, fun u => ?_, fun u m c hu hw => ?_, fun hz => ?_,
    fun u hu => ?_⟩
  · rw [hthread, hmutex, ht]
    by_cases hu : u = t
    · simp [hu, hp]
    · simp [hu, h.not_owns ht hu, Ne.symm hu]
  · rw [hthread]
    by_cases hu : u = t
    · simp [hu, hholder]
    · have hout : ¬ (s.thread u).Inside := fun hin => h.not_owns ht hu (owns_of_inside hin)
      rw [Function.update_of_ne hu]
      refine ⟨fun hs => ?_, fun hin => absurd hin hout⟩
      by_cases hin : p.Inside
      · rw [hholder.mpr hin] at hs
        exact absurd (Option.some.inj hs).symm hu
      · rw [hnone hin] at hs
        cases hs
  · rw [hcall, hthread]
    by_cases hu : u = t
    · simp [hu]
    · simp [hu, h.call_eq u]
  · rw [hmutex, ht] at hu
    cases hu
    rw [hthread, Function.update_self] at hw
    exact hresumable m c hw
  · rw [hmutex, ht] at hz
    cases hz
  · rw [hmutex, ht] at hu
    cases hu
    exact hprogress

theorem Refines.giveUp (h : s.Refines body a) (howns : (s.thread t).Owns)
    (hout : ¬ (s.thread t).Inside) (hthread : s'.thread = Function.update s.thread t p)
    (hp : ¬ p.Owns) (hlock : s'.lock = s.lock.release)
    (hcond : a'.cond = s'.cond) (hcall : a'.call = Function.update a.call t p.waitsIn)
    (hfree : a'.data = s'.data ∧ a'.results = s'.returned) : s'.Refines body a' := by
  have ht : s.lock.mutex = some t := (h.owner_iff t).mpr howns
  have hmutex : s'.lock.mutex = none := by rw [hlock]; rfl
  refine ⟨fun u => ?_, fun u => ?_, hcond, fun u => ?_, fun u m c hu => ?_, fun _ => hfree,
    fun u hu => ?_⟩
  · rw [hmutex, hthread]
    by_cases hu : u = t
    · simp [hu, hp]
    · simp [hu, h.not_owns ht hu]
  · have hholder : s'.lock.holder = s.lock.holder := by rw [hlock]; rfl
    rw [hholder, hthread, h.holder_iff u]
    by_cases hu : u = t
    · rw [hu, Function.update_self]
      exact ⟨fun hin => absurd hin hout, fun hin => absurd (owns_of_inside hin) hp⟩
    · rw [Function.update_of_ne hu]
  · rw [hcall, hthread]
    by_cases hu : u = t
    · simp [hu]
    · simp [hu, h.call_eq u]
  · rw [hmutex] at hu
    cases hu
  · rw [hmutex] at hu
    cases hu

theorem Refines.acquire (h : s.Refines body a) (hmutex : s.lock.mutex = none) {origin : Option κ}
    (hwaits : (s.thread t).waitsIn = origin.map (m, ·))
    (hresumable : ∀ c, origin = some c → (s.cond c).Resumable t) :
    Refines body { s.setPhase t (.locked m origin) with lock := s.lock.acquire t } a := by
  have hnobody : ∀ u, ¬ (s.thread u).Owns := fun u howns => by
    have hu := (h.owner_iff u).mpr howns
    rw [hmutex] at hu
    cases hu
  refine ⟨fun u => ?_, fun u => ?_, h.cond_eq, fun u => ?_, fun u m' c hu hw => ?_,
    (fun hz => nomatch hz), fun u hu => ?_⟩
  · simp only [setPhase, MutexLock.acquire]
    by_cases hu : u = t
    · simp [hu, LockPhase.Owns]
    · simp [hu, hnobody u, Ne.symm hu]
  · simp only [setPhase, MutexLock.acquire]
    rw [h.holder_iff u]
    by_cases hu : u = t
    · rw [hu, Function.update_self]
      exact ⟨fun hin => absurd (owns_of_inside hin) (hnobody t), fun hin => nomatch hin⟩
    · rw [Function.update_of_ne hu]
  · simp only [setPhase]
    by_cases hu : u = t
    · rw [hu, Function.update_self, h.call_eq t, hwaits]
      rfl
    · rw [Function.update_of_ne hu, h.call_eq u]
  · cases hu
    simp only [setPhase, Function.update_self, LockPhase.waitsIn] at hw
    cases origin with
    | none => cases hw
    | some c' =>
      cases hw
      exact hresumable c rfl
  · cases hu
    simp only [Partial, setPhase, Function.update_self]
    exact h.free hmutex

theorem Refines.call_self (h : s.Refines body a) (hw : p.waitsIn = (s.thread t).waitsIn) :
    a.call = Function.update a.call t p.waitsIn := by
  rw [hw, ← h.call_eq t, Function.update_eq_self]

theorem Refines.call (h : s.Refines body a) (hphase : s.thread t = .outside) (m : μ) :
    Refines body (s.setPhase t (.locking m)) a := by
  refine ⟨fun u => ?_, fun u => ?_, h.cond_eq, fun u => ?_, fun u m' c hu hw => ?_, h.free,
    fun u hu => ?_⟩
  · refine (h.owner_iff u).trans ?_
    by_cases hu : u = t
    · simp [setPhase, hu, hphase, LockPhase.Owns]
    · simp [setPhase, hu]
  · refine (h.holder_iff u).trans ?_
    by_cases hu : u = t
    · simp [setPhase, hu, hphase, LockPhase.Inside]
    · simp [setPhase, hu]
  · rw [h.call_eq u]
    by_cases hu : u = t
    · simp [setPhase, hu, hphase, LockPhase.waitsIn]
    · simp [setPhase, hu]
  all_goals
    have hne : u ≠ t := by
      rintro rfl
      have howns := (h.owner_iff u).mp hu
      rw [hphase] at howns
      exact howns
  · simp only [setPhase, Function.update_of_ne hne] at hw
    exact h.resumable u m' c hu hw
  · simp only [Partial, setPhase, Function.update_of_ne hne]
    exact h.owned u hu

theorem Refines.locked (h : s.Refines body a) {origin : Option κ}
    (hphase : s.thread t = .locked m origin) :
    Refines body { s.setPhase t (.running m origin (body m)) with
      lock := s.lock.assignHolder t } a := by
  have howns : (s.thread t).Owns := by rw [hphase]; trivial
  obtain ⟨hmutex, hprogress⟩ := h.owned_partial howns
  simp only [Partial, hphase] at hprogress
  refine h.own howns rfl trivial rfl ?_ ?_ h.cond_eq (h.call_self (by rw [hphase]; rfl)) ?_ ?_
  · simp [MutexLock.assignHolder, LockPhase.Inside]
  · exact fun hin => absurd trivial hin
  · intro m' c hw
    exact h.resumable t m' c hmutex (by rw [hphase]; exact hw)
  · simp only [Partial, setPhase, Function.update_self]
    exact ⟨by rw [hprogress.1], hprogress.2⟩

theorem Refines.leaving (h : s.Refines body a) {r : ρ} (hphase : s.thread t = .leaving r) :
    Refines body { s.setPhase t (.unlocking r) with lock := s.lock.unassignHolder } a := by
  have howns : (s.thread t).Owns := by rw [hphase]; trivial
  obtain ⟨-, hprogress⟩ := h.owned_partial howns
  simp only [Partial, hphase] at hprogress
  refine h.own howns rfl trivial rfl ?_ ?_ h.cond_eq (h.call_self (by rw [hphase]; rfl)) ?_ ?_
  · simp [MutexLock.unassignHolder, LockPhase.Inside]
  · exact fun _ => rfl
  · intro m' c hw
    cases hw
  · simp only [Partial, setPhase, Function.update_self]
    exact hprogress

theorem Refines.unlocking (h : s.Refines body a) {r : ρ} (hphase : s.thread t = .unlocking r) :
    Refines body { s.setPhase t .outside with
      lock := s.lock.release, returned := s.returned ++ [(t, r)] } a := by
  have howns : (s.thread t).Owns := by rw [hphase]; trivial
  obtain ⟨-, hprogress⟩ := h.owned_partial howns
  simp only [Partial, hphase] at hprogress
  exact h.giveUp howns (by rw [hphase]; exact not_false) rfl not_false rfl h.cond_eq
    (h.call_self (by rw [hphase]; rfl)) hprogress

variable [DecidableEq κ]

theorem Refines.exists_section (h : s.Refines body a) (howns : (s.thread t).Owns)
    {origin : Option κ} (hwaits : (s.thread t).waitsIn = origin.map (m, ·))
    (woken : Multiset τ) : ∃ y, a.step body y = a.runSection body t m origin woken := by
  have hcall := h.call_eq t
  rw [hwaits] at hcall
  cases origin with
  | none =>
    refine ⟨.enter t m woken, ?_⟩
    simp only [AtomicMonitor.step, hcall]
    rfl
  | some c =>
    have hres : (a.cond c).Resumable t := by
      rw [h.cond_eq]
      exact h.resumable t m c ((h.owner_iff t).mpr howns) hwaits
    refine ⟨.resume t woken, ?_⟩
    simp only [AtomicMonitor.step, hcall]
    exact if_pos hres

theorem Refines.running (h : s.Refines body a) {origin : Option κ} {code : SectionCode σ κ ε ρ}
    (hphase : s.thread t = .running m origin code) :
    (s.thread t).Owns ∧ s.lock.mutex = some t ∧ s.lock.holder = some t ∧
      (body m).eval a.data = code.eval s.data ∧ a.results = s.returned ∧
        ∀ woken, ∃ y, a.step body y = a.runSection body t m origin woken := by
  have howns : (s.thread t).Owns := by rw [hphase]; trivial
  obtain ⟨hmutex, hprogress⟩ := h.owned_partial howns
  simp only [Partial, hphase] at hprogress
  exact ⟨howns, hmutex, (h.holder_iff t).mpr (by rw [hphase]; trivial), hprogress.1, hprogress.2,
    h.exists_section howns (by rw [hphase]; rfl)⟩

theorem Refines.access (h : s.Refines body a) {origin : Option κ} {f : σ → σ}
    {next : σ → SectionCode σ κ ε ρ} (hphase : s.thread t = .running m origin (.access f next)) :
    Refines body { s.setPhase t (.running m origin (next s.data)) with data := f s.data } a := by
  obtain ⟨howns, hmutex, hholder, heval, hresults, -⟩ := h.running hphase
  refine h.own howns rfl trivial rfl ?_ ?_ h.cond_eq (h.call_self (by rw [hphase]; rfl)) ?_ ?_
  · simpa [setPhase, LockPhase.Inside] using hholder
  · exact fun hin => absurd trivial hin
  · intro m' c hw
    exact h.resumable t m' c hmutex (by rw [hphase]; exact hw)
  · simp only [Partial, setPhase, Function.update_self]
    exact ⟨heval, hresults⟩

theorem Refines.wait (h : s.Refines body a) {origin : Option κ} {c : κ}
    (hphase : s.thread t = .running m origin (.wait c)) :
    Refines body { s.setPhase t (.waiting m origin c) with lock := s.lock.unassignHolder } a := by
  obtain ⟨howns, hmutex, -, heval, hresults, -⟩ := h.running hphase
  refine h.own howns rfl trivial rfl ?_ ?_ h.cond_eq (h.call_self (by rw [hphase]; rfl)) ?_ ?_
  · simp [MutexLock.unassignHolder, LockPhase.Inside]
  · exact fun _ => rfl
  · intro m' c' hw
    exact h.resumable t m' c' hmutex (by rw [hphase]; exact hw)
  · simp only [Partial, setPhase, Function.update_self]
    exact ⟨heval, hresults⟩

/-- The atomic monitor runs a section when the thread comes to its end. -/
theorem Refines.done (h : s.Refines body a) {origin : Option κ} {g : Option (Signal κ)} {r : ρ}
    (hphase : s.thread t = .running m origin (.done g r)) (woken : Multiset τ) :
    ∃ y, EndAlike (Refines body) (.ok { s.setPhase t (.leaving r) with
      cond := signalled (resumed s.cond origin t) g woken })
        (run (AtomicMonitor.step body) a [y]) := by
  obtain ⟨howns, -, hholder, heval, hresults, hsection⟩ := h.running hphase
  obtain ⟨y, hy⟩ := hsection woken
  refine ⟨y, ?_⟩
  rw [run_singleton, hy, AtomicMonitor.runSection, heval, h.cond_eq]
  refine h.own howns rfl trivial rfl ?_ ?_ rfl rfl ?_ ?_
  · simpa [setPhase, LockPhase.Inside] using hholder
  · exact fun hin => absurd trivial hin
  · intro m' c hw
    cases hw
  · simp only [Partial, setPhase, Function.update_self]
    exact ⟨trivial, by rw [hresults]⟩

/-- A section that waits has come to its end when the thread gives the mutex up. -/
theorem Refines.waiting (h : s.Refines body a) {origin : Option κ} {c : κ}
    (hphase : s.thread t = .waiting m origin c) (woken : Multiset τ) :
    ∃ y, EndAlike (Refines body) (.ok { s.setPhase t (.blocked m c) with
      cond := Function.update (resumed s.cond origin t) c ((resumed s.cond origin t c).wait t)
      lock := s.lock.release }) (run (AtomicMonitor.step body) a [y]) := by
  have howns : (s.thread t).Owns := by rw [hphase]; trivial
  obtain ⟨-, hprogress⟩ := h.owned_partial howns
  simp only [Partial, hphase] at hprogress
  obtain ⟨heval, hresults⟩ := hprogress
  have hwaits : (s.thread t).waitsIn = origin.map (m, ·) := by rw [hphase]; rfl
  obtain ⟨y, hy⟩ := h.exists_section howns hwaits woken
  refine ⟨y, ?_⟩
  rw [run_singleton, hy, AtomicMonitor.runSection, heval, h.cond_eq]
  exact h.giveUp howns (by rw [hphase]; exact not_false) rfl not_false rfl rfl rfl ⟨rfl, hresults⟩

theorem advance_refines (h : s.Refines body a) (t : τ) (woken : Multiset τ) :
    ∃ ys, EndAlike (Refines body) (s.advance body t woken)
      (run (AtomicMonitor.step body) a ys) := by
  unfold advance
  cases hphase : s.thread t with
  | outside => exact ⟨[], h⟩
  | locking m =>
    simp only
    split
    · next hfree =>
      have hwaits : (s.thread t).waitsIn = Option.map (m, ·) none := by rw [hphase]; rfl
      exact ⟨[], h.acquire hfree hwaits (by simp)⟩
    · exact ⟨[], h⟩
  | blocked m c =>
    simp only
    split
    · next hfree =>
      have hwaits : (s.thread t).waitsIn = Option.map (m, ·) (some c) := by rw [hphase]; rfl
      refine ⟨[], h.acquire hfree.1 hwaits fun c' hc => ?_⟩
      cases hc
      exact hfree.2
    · exact ⟨[], h⟩
  | locked m origin => exact ⟨[], h.locked hphase⟩
  | running m origin code =>
    cases code with
    | access f next => exact ⟨[], h.access hphase⟩
    | fail e =>
      obtain ⟨-, -, -, heval, -, hsection⟩ := h.running hphase
      obtain ⟨y, hy⟩ := hsection woken
      refine ⟨[y], ?_⟩
      rw [run_singleton, hy, AtomicMonitor.runSection, heval]
      rfl
    | wait c => exact ⟨[], h.wait hphase⟩
    | done g r =>
      obtain ⟨y, hy⟩ := h.done hphase woken
      exact ⟨[y], hy⟩
  | waiting m origin c =>
    obtain ⟨y, hy⟩ := h.waiting hphase woken
    exact ⟨[y], hy⟩
  | leaving r => exact ⟨[], h.leaving hphase⟩
  | unlocking r => exact ⟨[], h.unlocking hphase⟩

theorem step_call (body : μ → SectionCode σ κ ε ρ) (hphase : s.thread t = .outside) (m : μ) :
    s.step body (.call t m) = .ok (s.setPhase t (.locking m)) := by
  simp only [step, hphase]
  rfl

theorem step_wakeUp (body : μ → SectionCode σ κ ε ρ) (s : LockedObject τ κ σ ε μ ρ) (t : τ) :
    ∃ cond, s.step body (.wakeUp t) = .ok { s with cond } := by
  simp only [step]
  split
  · split
    · exact ⟨_, rfl⟩
    · exact ⟨s.cond, rfl⟩
  · exact ⟨s.cond, rfl⟩

theorem step_refines (h : s.Refines body a) (x : LockLabel τ μ) :
    ∃ ys, EndAlike (Refines body) (s.step body x) (run (AtomicMonitor.step body) a ys) := by
  cases x with
  | call t m =>
    simp only [step]
    split
    · next hphase => exact ⟨[], h.call hphase m⟩
    · exact ⟨[], h⟩
  | advance t woken => exact advance_refines h t woken
  | wakeUp t =>
    simp only [step]
    split
    · next m c hphase =>
      split
      · next hmem =>
        have hcall := h.call_eq t
        rw [hphase] at hcall
        have hy : a.step body (.wakeUp t) = (.ok { a with
            cond := Function.update a.cond c ((a.cond c).wakeUp t) } : Except ε _) := by
          simp only [AtomicMonitor.step, hcall, LockPhase.waitsIn]
          exact if_pos (h.cond_eq ▸ hmem)
        refine ⟨[.wakeUp t], ?_⟩
        rw [run_singleton, hy, h.cond_eq]
        refine ⟨h.owner_iff, h.holder_iff, rfl, h.call_eq, fun u m' c' hu hw => ?_, h.free,
          h.owned⟩
        have hres := h.resumable u m' c' hu hw
        by_cases hc : c' = c
        · subst hc
          simpa using hres.wakeUp
        · simpa [hc] using hres
      · exact ⟨[], h⟩
    · exact ⟨[], h⟩

/-- Every run of the threads is a run of the atomic monitor. -/
theorem run_refines_atomic (body : μ → SectionCode σ κ ε ρ) (data : σ)
    (labels : List (LockLabel τ μ)) :
    ∃ ys, EndAlike (Refines body) (run (step body) (new data) labels)
      (run (AtomicMonitor.step body) ⟨data, fun _ => .new, fun _ => none, []⟩ ys) :=
  run_refines (C := fun _ _ => True) (fun _ _ x h _ => step_refines h x) (new_refines data)
    (along_of_forall (fun _ _ => trivial) _ labels)

theorem Refines.eval_of_error (h : s.Refines body a) {e : ε}
    (hs : s.advance body t woken = .error e) : ∃ m, (body m).eval a.data = .error e := by
  unfold advance at hs
  split at hs
  case h_6 m origin e' hphase =>
    cases hs
    have hprogress := h.owned t ((h.owner_iff t).mpr (by rw [hphase]; trivial))
    simp only [Partial, hphase] at hprogress
    exact ⟨m, hprogress.1⟩
  case h_2 | h_3 => split at hs <;> cases hs
  all_goals cases hs

theorem advance_inCall {R : ρ → Prop} (h : (s.thread t).InCall m R) (hbody : (body m).Returns R)
    (hs : s.advance body t woken = .ok s') :
    (s'.thread t).InCall m R ∧ s'.returned = s.returned ∨
      s'.thread t = .outside ∧ ∃ r, R r ∧ s'.returned = s.returned ++ [(t, r)] := by
  unfold advance at hs
  cases hphase : s.thread t with
  | outside =>
    rw [hphase] at h
    cases h
  | locking m' | blocked m' c =>
    rw [hphase] at h hs
    simp only at hs
    split at hs
    · cases hs
      exact .inl ⟨by simpa [setPhase, LockPhase.InCall] using h, rfl⟩
    · cases hs
      exact .inl ⟨by rw [hphase]; exact h, rfl⟩
  | locked m' origin =>
    rw [hphase] at h hs
    obtain rfl : m' = m := h
    cases hs
    refine .inl ⟨?_, rfl⟩
    simp only [setPhase, Function.update_self]
    exact ⟨rfl, hbody⟩
  | running m' origin code =>
    rw [hphase] at h hs
    obtain ⟨hm, hcode⟩ := h
    refine .inl ?_
    cases code with
    | access f next =>
      cases hs
      refine ⟨?_, rfl⟩
      simp only [setPhase, Function.update_self]
      exact ⟨hm, hcode s.data⟩
    | fail e => cases hs
    | wait c | done g r =>
      cases hs
      refine ⟨?_, rfl⟩
      simp only [setPhase, Function.update_self]
      assumption
  | waiting m' origin c | leaving r =>
    rw [hphase] at h hs
    cases hs
    refine .inl ⟨?_, rfl⟩
    simp only [setPhase, Function.update_self]
    exact h
  | unlocking r =>
    rw [hphase] at h hs
    cases hs
    exact .inr ⟨Function.update_self .., r, h, rfl⟩

theorem advance_outside (hphase : s.thread t = .outside) : s.advance body t woken = .ok s := by
  rw [advance, hphase]
  rfl

theorem advance_other (hu : u ≠ t) (hs : s.advance body t woken = .ok s') :
    s'.thread u = s.thread u := by
  unfold advance at hs
  split at hs
  case h_2 | h_3 =>
    split at hs
    · cases hs
      exact Function.update_of_ne hu ..
    · cases hs
      rfl
  case h_1 =>
    cases hs
    rfl
  case h_6 => cases hs
  all_goals
    cases hs
    exact Function.update_of_ne hu ..

/-- When only this thread goes on, it gives the mutex up or fails. -/
def Frees (body : μ → SectionCode σ κ ε ρ) (s : LockedObject τ κ σ ε μ ρ) (t : τ) : Prop :=
  ∃ n, ∀ s', run (step body) s (List.replicate n (.advance t 0)) = .ok s' → s'.lock.mutex = none

theorem frees_of_none (h : s.lock.mutex = none) : s.Frees body t := by
  refine ⟨0, fun s' hs => ?_⟩
  cases hs
  exact h

theorem Frees.of_step (h : ∀ s', s.advance body t 0 = .ok s' → s'.Frees body t) :
    s.Frees body t := by
  cases hs : s.advance body t 0 with
  | error e =>
    refine ⟨1, fun s' hrun => ?_⟩
    rw [List.replicate_one, run_singleton] at hrun
    cases hs.symm.trans hrun
  | ok s₁ =>
    obtain ⟨n, hn⟩ := h s₁ hs
    refine ⟨n + 1, fun s' hrun => hn s' ?_⟩
    rwa [List.replicate_succ, run_cons_of_ok hs] at hrun

theorem frees_of_unlocking {r : ρ} (hphase : s.thread t = .unlocking r) : s.Frees body t := by
  refine .of_step fun s' hs => ?_
  simp only [advance, hphase] at hs
  cases hs
  exact frees_of_none rfl

theorem frees_of_leaving {r : ρ} (hphase : s.thread t = .leaving r) : s.Frees body t := by
  refine .of_step fun s' hs => ?_
  simp only [advance, hphase] at hs
  cases hs
  exact frees_of_unlocking (Function.update_self ..)

theorem frees_of_waiting {origin : Option κ} {c : κ} (hphase : s.thread t = .waiting m origin c) :
    s.Frees body t := by
  refine .of_step fun s' hs => ?_
  simp only [advance, hphase] at hs
  cases hs
  exact frees_of_none rfl

/-- A section comes to its end, by induction on its code. -/
theorem frees_of_running {origin : Option κ} {code : SectionCode σ κ ε ρ}
    (hphase : s.thread t = .running m origin code) : s.Frees body t := by
  induction code generalizing s with
  | access f next ih =>
    refine .of_step fun s' hs => ?_
    simp only [advance, hphase] at hs
    cases hs
    exact ih s.data (Function.update_self ..)
  | fail e =>
    refine .of_step fun s' hs => ?_
    simp only [advance, hphase] at hs
    cases hs
  | wait c =>
    refine .of_step fun s' hs => ?_
    simp only [advance, hphase] at hs
    cases hs
    exact frees_of_waiting (Function.update_self ..)
  | done g r =>
    refine .of_step fun s' hs => ?_
    simp only [advance, hphase] at hs
    cases hs
    exact frees_of_leaving (Function.update_self ..)

theorem frees_of_owns (howns : (s.thread t).Owns) : s.Frees body t := by
  cases hphase : s.thread t with
  | outside | locking | blocked =>
    rw [hphase] at howns
    cases howns
  | locked m origin =>
    refine .of_step fun s' hs => ?_
    simp only [advance, hphase] at hs
    cases hs
    exact frees_of_running (Function.update_self ..)
  | running m origin code => exact frees_of_running hphase
  | waiting m origin c => exact frees_of_waiting hphase
  | leaving r => exact frees_of_leaving hphase
  | unlocking r => exact frees_of_unlocking hphase

/-- What a mutex does for its object. -/
structure Guarded (body : μ → SectionCode σ κ ε ρ) (s : LockedObject τ κ σ ε μ ρ) : Prop where
  exclusive : ∀ t u, (s.thread t).Owns → (s.thread u).Owns → t = u

  /-- `AssertLocked` holds in a section, and nowhere else. -/
  locked_iff : ∀ t, s.lock.isLockedByThisThread t = true ↔ (s.thread t).Inside

  /-- `~MutexLock` finds no holder unless some thread is in its section. -/
  destructible : (∀ t, ¬ (s.thread t).Inside) → s.lock.holder = none

  frees : ∀ t, (s.thread t).Owns → s.Frees body t

theorem Refines.guarded (h : s.Refines body a) : s.Guarded body where
  exclusive t u ht hu := by
    have hmutex := (h.owner_iff t).mpr ht
    rw [(h.owner_iff u).mpr hu] at hmutex
    exact (Option.some.inj hmutex).symm
  locked_iff t := by simp [MutexLock.isLockedByThisThread, h.holder_iff t]
  destructible hall := by
    cases hholder : s.lock.holder with
    | none => rfl
    | some t => exact absurd ((h.holder_iff t).mp hholder) (hall t)
  frees _ := frees_of_owns

end LockedObject

end Dwater
