import Mathlib.Logic.Function.Basic
import Dwater.Lib.CondVar
import Dwater.Lib.Fallible

/-! # Monitors

An object under a mutex, with condition variables. What a thread does from where it gets the mutex
to where it waits or returns is a section of code, and a thread that has waited starts its section
anew. In an atomic monitor a section is one step. A section may come with a choice of the threads
that its notification wakes; a choice that is not possible stands for all of them.
-/

set_option autoImplicit false

universe u

inductive Signal (κ : Type u)
  | one (c : κ)
  | all (c : κ)

/-- A section: it reads and writes the data, and ends with a failure, in a condition variable, or
with a notification and a result. -/
inductive SectionCode (σ κ ε ρ : Type u)
  | access (f : σ → σ) (next : σ → SectionCode σ κ ε ρ)
  | fail (e : ε)
  | wait (c : κ)
  | done (signal : Option (Signal κ)) (result : ρ)

inductive SectionEnd (κ ρ : Type u)
  | wait (c : κ)
  | done (signal : Option (Signal κ)) (result : ρ)

namespace SectionCode

variable {σ κ ε ρ : Type u}

def eval : SectionCode σ κ ε ρ → σ → Except ε (σ × SectionEnd κ ρ)
  | .access f next, s => (next s).eval (f s)
  | .fail e, _ => .error e
  | .wait c, s => .ok (s, .wait c)
  | .done g r, s => .ok (s, .done g r)

def Returns (R : ρ → Prop) : SectionCode σ κ ε ρ → Prop
  | .access _ next => ∀ s, (next s).Returns R
  | .fail _ | .wait _ => True
  | .done _ r => R r

end SectionCode

def resumed {τ κ : Type u} [DecidableEq τ] [DecidableEq κ] (cond : κ → CondVar τ)
    (origin : Option κ) (t : τ) : κ → CondVar τ :=
  match origin with
  | none => cond
  | some c => Function.update cond c ((cond c).resume t)

def signalled {τ κ : Type u} [DecidableEq τ] [DecidableEq κ] (cond : κ → CondVar τ)
    (signal : Option (Signal κ)) (woken : Multiset τ) : κ → CondVar τ :=
  match signal with
  | none => cond
  | some (.one c) =>
    Function.update cond c
      ((cond c).notify (if (cond c).Wakes woken then woken else (cond c).waiting))
  | some (.all c) => Function.update cond c (cond c).notifyAll

/-- The object, the calls of the threads that wait, and the results in the order of the sections. -/
structure AtomicMonitor (τ κ σ μ ρ : Type u) where
  data : σ
  cond : κ → CondVar τ
  call : τ → Option (μ × κ)
  results : List (τ × ρ)

inductive MonitorLabel (τ μ : Type u)
  /-- the thread calls a method and runs its section -/
  | enter (t : τ) (m : μ) (woken : Multiset τ)
  /-- a thread that has waited runs its section again -/
  | resume (t : τ) (woken : Multiset τ)
  /-- a thread wakes up by itself -/
  | wakeUp (t : τ)

namespace AtomicMonitor

open Fallible

variable {τ κ σ ε μ ρ : Type u} [DecidableEq τ] [DecidableEq κ]

def runSection (body : μ → SectionCode σ κ ε ρ) (s : AtomicMonitor τ κ σ μ ρ) (t : τ) (m : μ)
    (origin : Option κ) (woken : Multiset τ) : Except ε (AtomicMonitor τ κ σ μ ρ) := do
  let r ← (body m).eval s.data
  let cond := resumed s.cond origin t
  match r.2 with
  | .wait c =>
    return { s with
      data := r.1
      cond := Function.update cond c ((cond c).wait t)
      call := Function.update s.call t (some (m, c)) }
  | .done g result =>
    return {
      data := r.1
      cond := signalled cond g woken
      call := Function.update s.call t none
      results := s.results ++ [(t, result)] }

/-- One step; a label that is not possible changes nothing. -/
def step (body : μ → SectionCode σ κ ε ρ) (s : AtomicMonitor τ κ σ μ ρ) :
    MonitorLabel τ μ → Except ε (AtomicMonitor τ κ σ μ ρ)
  | .enter t m woken =>
    match s.call t with
    | none => s.runSection body t m none woken
    | some _ => return s
  | .resume t woken =>
    match s.call t with
    | none => return s
    | some (m, c) =>
      if (s.cond c).Resumable t then s.runSection body t m (some c) woken else return s
  | .wakeUp t =>
    match s.call t with
    | none => return s
    | some (_, c) =>
      if t ∈ (s.cond c).waiting then
        return { s with cond := Function.update s.cond c ((s.cond c).wakeUp t) }
      else return s

end AtomicMonitor

/-- A thread is in a condition variable, and there once, when its call waits for it. -/
structure Placed {τ κ μ : Type u} (cond : κ → CondVar τ) (call : τ → Option (μ × κ)) : Prop where
  mem_iff : ∀ t c, t ∈ (cond c).threads ↔ ∃ m, call t = some (m, c)
  nodup : ∀ c, (cond c).threads.Nodup

section Placed

variable {τ κ μ : Type u} {cond : κ → CondVar τ} {call : τ → Option (μ × κ)} {t : τ} {c : κ}

theorem placed_new : Placed (fun _ : κ => (CondVar.new : CondVar τ))
    (fun _ => (none : Option (μ × κ))) :=
  ⟨fun t c => by simp [CondVar.new, CondVar.threads], fun c => Multiset.nodup_zero⟩

theorem Placed.notMem (h : Placed cond call) (hcall : call t = none) (c : κ) :
    t ∉ (cond c).threads := by
  intro hmem
  obtain ⟨m, hm⟩ := (h.mem_iff t c).mp hmem
  rw [hcall] at hm
  cases hm

variable [DecidableEq τ] [DecidableEq κ]

theorem Placed.wait (h : Placed cond call) (hcall : call t = none) (m : μ) (c : κ) :
    Placed (Function.update cond c ((cond c).wait t)) (Function.update call t (some (m, c))) := by
  refine ⟨fun u c' => ?_, fun c' => ?_⟩
  · by_cases hc : c' = c
    · subst hc
      rw [Function.update_self, CondVar.threads_wait, Multiset.mem_cons, h.mem_iff u c']
      by_cases hu : u = t
      · simp [hu]
      · simp [hu]
    · rw [Function.update_of_ne hc, h.mem_iff u c']
      by_cases hu : u = t
      · simp [hu, hcall, Ne.symm hc]
      · simp [hu]
  · by_cases hc : c' = c
    · subst hc
      rw [Function.update_self, CondVar.threads_wait]
      exact Multiset.nodup_cons.mpr ⟨h.notMem hcall c', h.nodup c'⟩
    · rw [Function.update_of_ne hc]
      exact h.nodup c'

omit [DecidableEq τ] in
theorem Placed.of_threads (h : Placed cond call) {v : CondVar τ}
    (hthreads : v.threads = (cond c).threads) : Placed (Function.update cond c v) call := by
  have heq : ∀ c', (Function.update cond c v c').threads = (cond c').threads := by
    intro c'
    by_cases hc : c' = c
    · subst hc
      rw [Function.update_self, hthreads]
    · rw [Function.update_of_ne hc]
  refine ⟨fun u c' => ?_, fun c' => ?_⟩
  · rw [heq c']
    exact h.mem_iff u c'
  · rw [heq c']
    exact h.nodup c'

theorem wakes_choice (v : CondVar τ) (woken : Multiset τ) :
    v.Wakes (if v.Wakes woken then woken else v.waiting) := by
  split
  · next h => exact h
  · exact ⟨le_rfl, id⟩

theorem Placed.signal (h : Placed cond call) (g : Option (Signal κ)) (woken : Multiset τ) :
    Placed (signalled cond g woken) call := by
  match g with
  | none => exact h
  | some (.one c) => exact h.of_threads (CondVar.threads_notify (wakes_choice _ _))
  | some (.all c) => exact h.of_threads CondVar.threads_notifyAll

theorem Placed.resume (h : Placed cond call) {origin : Option κ} {m : μ}
    (hcall : call t = origin.map (m, ·))
    (hres : ∀ c, origin = some c → (cond c).Resumable t) :
    Placed (resumed cond origin t) (Function.update call t none) := by
  cases origin with
  | none =>
    have hnone : call t = none := hcall
    rw [← hnone, Function.update_eq_self]
    exact h
  | some c =>
    have hthreads := CondVar.threads_resume (hres c rfl)
    have hnodup := h.nodup c
    rw [← hthreads, Multiset.nodup_cons] at hnodup
    refine ⟨fun u c' => ?_, fun c' => ?_⟩
    · have hmem := h.mem_iff u c'
      by_cases hc : c' = c
      · subst hc
        simp only [resumed, Function.update_self]
        rw [← hthreads, Multiset.mem_cons] at hmem
        by_cases hu : u = t
        · simp [hu, hnodup.1]
        · simpa [hu] using hmem
      · simp only [resumed, Function.update_of_ne hc]
        by_cases hu : u = t
        · rw [hu, hcall] at hmem
          simpa [hu, hc, Ne.symm hc] using hmem
        · simpa [hu] using hmem
    · by_cases hc : c' = c
      · subst hc
        simpa [resumed] using hnodup.2
      · simpa [resumed, hc] using h.nodup c'

end Placed

namespace AtomicMonitor

open Fallible

variable {τ κ σ ε μ ρ : Type u} [DecidableEq τ] [DecidableEq κ]
  {body : μ → SectionCode σ κ ε ρ} {s s' : AtomicMonitor τ κ σ μ ρ} {t : τ} {m : μ}

theorem runSection_placed (h : Placed s.cond s.call) {origin : Option κ}
    (hcall : s.call t = origin.map (m, ·))
    (hres : ∀ c, origin = some c → (s.cond c).Resumable t) {woken : Multiset τ}
    (hs : s.runSection body t m origin woken = .ok s') : Placed s'.cond s'.call := by
  have hresume := h.resume hcall hres
  obtain ⟨r, -, hs⟩ := bind_eq_ok hs
  simp only at hs
  split at hs
  · next c hc =>
    cases hs
    have hwait := hresume.wait (Function.update_self ..) m c
    rwa [Function.update_idem] at hwait
  · cases hs
    exact hresume.signal _ _

theorem step_placed (h : Placed s.cond s.call) {y : MonitorLabel τ μ}
    (hs : s.step body y = .ok s') : Placed s'.cond s'.call := by
  cases y with
  | enter t m woken =>
    simp only [step] at hs
    split at hs
    · next hcall =>
      have hmap : s.call t = Option.map (m, ·) none := hcall
      exact runSection_placed h hmap (by simp) hs
    · cases hs
      exact h
  | resume t woken =>
    simp only [step] at hs
    split at hs
    · cases hs
      exact h
    · next m c hcall =>
      split at hs
      · next hres =>
        have hmap : s.call t = Option.map (m, ·) (some c) := hcall
        refine runSection_placed h hmap (fun c' hc => ?_) hs
        cases hc
        exact hres
      · cases hs
        exact h
  | wakeUp t =>
    simp only [step] at hs
    split at hs
    · cases hs
      exact h
    · split at hs
      · next hmem =>
        cases hs
        exact h.of_threads (CondVar.threads_wakeUp hmem)
      · cases hs
        exact h

end AtomicMonitor
