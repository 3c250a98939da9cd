import Dwater.Base.Types

/-! # The loop as its channels see it

An iteration of `Loop()` polls, handles the active channels one after another and runs
the functors queued until then. A channel may be removed from the poller while the active
channels are being handled, but only by its own handler or when it is not active.
-/

set_option autoImplicit false
namespace Dwater

open Fallible

/-- Where the loop thread is in `Loop()`. -/
inductive ReactorPhase
  | polling
  | handling
  | running
  deriving DecidableEq, Repr

/-- A loop with channels of type `κ` and functors of type `τ`. `channels` are the poller's,
`unhandled` are the active channels that the for-loop has not reached. -/
structure Reactor (κ τ : Type) where
  channels : List κ
  activeChannels : List κ
  unhandled : List κ
  currActiveChannel : Option κ
  eventHandling : Bool
  pendingFunctors : List τ
  functors : List τ
  phase : ReactorPhase
  deriving DecidableEq, Repr

namespace Reactor

variable {κ τ : Type}

def new (channels : List κ) : Reactor κ τ :=
  { channels := channels, activeChannels := [], unhandled := [], currActiveChannel := none,
    eventHandling := false, pendingFunctors := [], functors := [], phase := .polling }

def tasks (l : Reactor κ τ) : List τ := l.functors ++ l.pendingFunctors

def queueInLoop (l : Reactor κ τ) (f : τ) : Reactor κ τ :=
  { l with pendingFunctors := l.pendingFunctors ++ [f] }

def updateChannel [DecidableEq κ] (l : Reactor κ τ) (ch : κ) : Reactor κ τ :=
  { l with channels := if ch ∈ l.channels then l.channels else l.channels ++ [ch] }

def removeChannel [DecidableEq κ] (l : Reactor κ τ) (ch : κ) : Except Fault (Reactor κ τ) := do
  check (l.eventHandling = true → l.currActiveChannel = some ch ∨ ch ∉ l.activeChannels)
    (.assertion .event_loop_cc 178)
  return { l with channels := l.channels.filter (· ≠ ch) }

/-- `Poll` returns with active channels, each once. -/
def poll [DecidableEq κ] (l : Reactor κ τ) (active : List κ) : Reactor κ τ :=
  if l.phase = .polling ∧ active.Nodup ∧ (∀ ch ∈ active, ch ∈ l.channels) then
    { l with activeChannels := active, unhandled := active, eventHandling := true,
             phase := .handling }
  else l

def nextChannel (l : Reactor κ τ) : Option (κ × Reactor κ τ) :=
  match l.phase, l.unhandled with
  | .handling, ch :: rest => some (ch, { l with currActiveChannel := some ch, unhandled := rest })
  | _, _ => none

/-- The end of the for-loop and the swap in `DoPendingFunctors`. -/
def handled (l : Reactor κ τ) : Reactor κ τ :=
  if l.phase = .handling ∧ l.unhandled = [] then
    { l with currActiveChannel := none, eventHandling := false, functors := l.pendingFunctors,
             pendingFunctors := [], phase := .running }
  else l

def nextFunctor (l : Reactor κ τ) : Option (τ × Reactor κ τ) :=
  match l.phase, l.functors with
  | .running, f :: fs => some (f, { l with functors := fs })
  | _, _ => none

/-- The end of `DoPendingFunctors`. -/
def ran (l : Reactor κ τ) : Reactor κ τ :=
  if l.phase = .running ∧ l.functors = [] then { l with phase := .polling } else l

/-- What holds of every loop, whatever its channels do. -/
structure Coherent (l : Reactor κ τ) : Prop where
  handling_iff : l.eventHandling = true ↔ l.phase = .handling
  functors_nil : l.phase ≠ .running → l.functors = []
  unhandled_nil : l.phase ≠ .handling → l.unhandled = []
  curr_none : l.phase ≠ .handling → l.currActiveChannel = none
  unhandled_nodup : l.unhandled.Nodup
  unhandled_active : ∀ ch ∈ l.unhandled, ch ∈ l.activeChannels
  curr_handled : ∀ ch, l.currActiveChannel = some ch → ch ∉ l.unhandled

variable {l l' : Reactor κ τ} {ch : κ} {f : τ}

@[simp] theorem tasks_queueInLoop : (l.queueInLoop f).tasks = l.tasks ++ [f] :=
  (List.append_assoc ..).symm

theorem new_coherent (channels : List κ) : (new channels : Reactor κ τ).Coherent := by
  constructor <;> simp [new]

theorem Coherent.queueInLoop (h : l.Coherent) : (l.queueInLoop f).Coherent :=
  ⟨h.handling_iff, h.functors_nil, h.unhandled_nil, h.curr_none, h.unhandled_nodup,
    h.unhandled_active, h.curr_handled⟩

theorem nextChannel_eq (h : l.nextChannel = some (ch, l')) : l.phase = .handling ∧
    l.unhandled = ch :: l'.unhandled ∧
      l' = { l with currActiveChannel := some ch, unhandled := l'.unhandled } := by
  unfold nextChannel at h
  split at h
  · next hp hu =>
    cases h
    exact ⟨hp, hu, rfl⟩
  · cases h

theorem mem_unhandled_iff {k : κ} (h : l.nextChannel = some (ch, l')) :
    k ∈ l.unhandled ↔ k = ch ∨ k ∈ l'.unhandled := by
  rw [(nextChannel_eq h).2.1, List.mem_cons]

theorem Coherent.nextChannel (h : l.Coherent) (hn : l.nextChannel = some (ch, l')) :
    l'.Coherent := by
  obtain ⟨hp, hu, heq⟩ := nextChannel_eq hn
  have hnodup := h.unhandled_nodup
  have hactive := h.unhandled_active
  rw [hu] at hnodup hactive
  rw [List.nodup_cons] at hnodup
  rw [heq]
  constructor
  · exact h.handling_iff
  · exact h.functors_nil
  · exact fun hne => absurd hp hne
  · exact fun hne => absurd hp hne
  · exact hnodup.2
  · exact fun k hk => hactive k (List.mem_cons_of_mem _ hk)
  · rintro k hk
    cases hk
    exact hnodup.1

theorem Coherent.tasks_handled (h : l.Coherent) : l.handled.tasks = l.tasks := by
  unfold Reactor.handled
  split
  · next hp => simp [tasks, h.functors_nil (by rw [hp.1]; decide)]
  · rfl

theorem Coherent.handled (h : l.Coherent) : l.handled.Coherent := by
  unfold Reactor.handled
  split
  · next hp => constructor <;> simp [hp.2]
  · exact h

theorem nextFunctor_eq (h : l.nextFunctor = some (f, l')) : l.phase = .running ∧
    l.functors = f :: l'.functors ∧ l' = { l with functors := l'.functors } := by
  unfold nextFunctor at h
  split at h
  · next hp hf =>
    cases h
    exact ⟨hp, hf, rfl⟩
  · cases h

theorem tasks_nextFunctor (h : l.nextFunctor = some (f, l')) : l.tasks = f :: l'.tasks := by
  obtain ⟨-, hf, heq⟩ := nextFunctor_eq h
  rw [heq, tasks, hf]
  rfl

theorem Coherent.nextFunctor (h : l.Coherent) (hn : l.nextFunctor = some (f, l')) :
    l'.Coherent := by
  obtain ⟨hp, -, heq⟩ := nextFunctor_eq hn
  rw [heq]
  refine ⟨h.handling_iff, fun hne => absurd hp hne, h.unhandled_nil, h.curr_none,
    h.unhandled_nodup, h.unhandled_active, h.curr_handled⟩

@[simp] theorem tasks_ran : l.ran.tasks = l.tasks := by
  unfold Reactor.ran
  split <;> rfl

theorem Coherent.ran (h : l.Coherent) : l.ran.Coherent := by
  unfold Reactor.ran
  split
  · next hp =>
    have hne : l.phase ≠ .handling := by rw [hp.1]; decide
    have hev : l.eventHandling ≠ true := fun he => hne (h.handling_iff.mp he)
    constructor <;> simp_all [h.unhandled_nil hne, h.curr_none hne]
  · exact h

variable [DecidableEq κ]

@[simp] theorem mem_updateChannel {k : κ} :
    k ∈ (l.updateChannel ch).channels ↔ k = ch ∨ k ∈ l.channels := by
  unfold updateChannel
  split
  · next hmem =>
    refine ⟨.inr, ?_⟩
    rintro (rfl | hk)
    · exact hmem
    · exact hk
  · simp [or_comm]

@[simp] theorem tasks_poll (active : List κ) : (l.poll active).tasks = l.tasks := by
  unfold poll
  split <;> rfl

theorem Coherent.updateChannel (h : l.Coherent) : (l.updateChannel ch).Coherent :=
  ⟨h.handling_iff, h.functors_nil, h.unhandled_nil, h.curr_none, h.unhandled_nodup,
    h.unhandled_active, h.curr_handled⟩

theorem removeChannel_ok
    (h : l.eventHandling = true → l.currActiveChannel = some ch ∨ ch ∉ l.activeChannels) :
    ∃ l', l.removeChannel ch = .ok l' :=
  ⟨_, check_bind_of_true h⟩

theorem removeChannel_eq (h : l.removeChannel ch = .ok l') :
    (l.eventHandling = true → l.currActiveChannel = some ch ∨ ch ∉ l.activeChannels) ∧
      l' = { l with channels := l.channels.filter (· ≠ ch) } := by
  obtain ⟨hc, h⟩ := check_bind_eq_ok h
  cases h
  exact ⟨hc, rfl⟩

theorem Coherent.removeChannel (h : l.Coherent) (hr : l.removeChannel ch = .ok l') :
    l'.Coherent := by
  obtain ⟨-, rfl⟩ := removeChannel_eq hr
  exact ⟨h.handling_iff, h.functors_nil, h.unhandled_nil, h.curr_none, h.unhandled_nodup,
    h.unhandled_active, h.curr_handled⟩

theorem Coherent.notMem_unhandled (h : l.Coherent) (hr : l.removeChannel ch = .ok l') :
    ch ∉ l.unhandled := by
  intro hmem
  obtain ⟨hc, -⟩ := removeChannel_eq hr
  have hphase : l.phase = .handling := by
    by_contra hp
    rw [h.unhandled_nil hp] at hmem
    cases hmem
  rcases hc (h.handling_iff.mpr hphase) with hcurr | hactive
  · exact h.curr_handled ch hcurr hmem
  · exact hactive (h.unhandled_active ch hmem)

theorem Coherent.poll (h : l.Coherent) (active : List κ) : (l.poll active).Coherent := by
  unfold Reactor.poll
  split
  · next hp =>
    have hcurr := h.curr_none (by rw [hp.1]; decide)
    constructor <;> simp [hp.2.1, hcurr, h.functors_nil (by rw [hp.1]; decide)]
  · exact h

end Reactor

end Dwater
