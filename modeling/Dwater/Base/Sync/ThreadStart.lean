import Mathlib.Data.PNat.Defs
import Dwater.Base.Sync.CountDownLatch

/-! # Starting a thread

`Start` creates a thread, waits until the latch of the `Thread` has been counted down and reads the
`tid_` that the new thread has written into the `Thread`. The `Thread` may be destroyed as soon as
`Start` has returned, while the new thread still runs.
-/

set_option autoImplicit false
namespace Dwater

open Fallible

inductive ThreadParty
  /-- The thread that calls `Start`. -/
  | starter
  | started
  deriving DecidableEq, Repr

inductive StarterPhase
  /-- In `Start`, before `pthread_create`. -/
  | creating

  /-- Before `latch_.Wait()`. -/
  | created

  /-- In `latch_.Wait()`, before the assertion. -/
  | waiting

  | returned

  /-- After `~Thread`. -/
  | destroyed
  deriving DecidableEq, Repr

inductive StartedPhase
  | absent

  /-- In `RunInThread`. -/
  | entered

  /-- It has written `tid_`. -/
  | identified

  /-- In `latch_->CountDown()`. -/
  | counting

  /-- After `latch_ = NULL`. -/
  | running
  deriving DecidableEq, Repr

/-- A `Thread`, and where the two threads are. -/
structure ThreadStart where
  tid : ℕ
  latch : CountDownLatch ThreadParty
  starter : StarterPhase
  started : StartedPhase

inductive ThreadStartLabel
  /-- the thread that calls `Start` goes on -/
  | starter (woken : Multiset ThreadParty)

  /-- the new thread goes on, with the number that `gettid` has for it -/
  | started (tid : ℕ+) (woken : Multiset ThreadParty)

  /-- a thread that waits for the latch wakes up by itself -/
  | wakeUp (p : ThreadParty)

namespace ThreadStart

def new : ThreadStart := ⟨0, .new 1, .creating, .absent⟩

def stepStarter (s : ThreadStart) (woken : Multiset ThreadParty) :
    Except ThreadFault ThreadStart :=
  match s.starter with
  | .creating => return { s with starter := .created, started := .entered }
  | .created => do
    let latch ← s.latch.step LatchCode.body (.call .starter .wait)
    return { s with latch, starter := .waiting }
  | .waiting =>
    match s.latch.thread .starter with
    | .outside => do
      check (0 < s.tid) .noTid
      return { s with starter := .returned }
    | _ => do
      let latch ← s.latch.step LatchCode.body (.advance .starter woken)
      return { s with latch }
  | .returned => do
    check (s.latch.lock = .new) .destroyedLocked
    return { s with starter := .destroyed }
  | .destroyed => return s

def stepStarted (s : ThreadStart) (tid : ℕ+) (woken : Multiset ThreadParty) :
    Except ThreadFault ThreadStart :=
  match s.started with
  | .absent => return s
  | .entered => do
    check (s.starter ≠ .destroyed) .useAfterDestroy
    return { s with tid, started := .identified }
  | .identified => do
    check (s.starter ≠ .destroyed) .useAfterDestroy
    let latch ← s.latch.step LatchCode.body (.call .started .countDown)
    return { s with latch, started := .counting }
  | .counting =>
    match s.latch.thread .started with
    | .outside => return { s with started := .running }
    | _ => do
      check (s.starter ≠ .destroyed) .useAfterDestroy
      let latch ← s.latch.step LatchCode.body (.advance .started woken)
      return { s with latch }
  | .running => return s

def step (s : ThreadStart) : ThreadStartLabel → Except ThreadFault ThreadStart
  | .starter woken => s.stepStarter woken
  | .started tid woken => s.stepStarted tid woken
  | .wakeUp p => do
    let latch ← s.latch.step LatchCode.body (.wakeUp p)
    return { s with latch }

def Done (s : ThreadStart) : Prop :=
  s.latch.thread .started = .outside ∧ (s.started = .counting ∨ s.started = .running)

def counts (s : ThreadStart) : ℕ := (s.latch.returned.map (·.2)).count .counted

end ThreadStart

def Latched {τ : Type} [DecidableEq τ] (n : ℤ) (l : CountDownLatch τ) : Prop :=
  ∃ a, l.Refines LatchCode.body a ∧ LatchMonitor.Inv n a

section Latched

variable {τ : Type} [DecidableEq τ] {n : ℤ} {l l' : CountDownLatch τ}

theorem latched_new : Latched n (.new n : CountDownLatch τ) :=
  ⟨_, LockedObject.new_refines n, latch_inv_new⟩

theorem Latched.step (h : Latched n l) {x : LockLabel τ LatchCall}
    (hs : LockedObject.step LatchCode.body l x = .ok l') : Latched n l' := by
  obtain ⟨a, hrefines, hinv⟩ := h
  obtain ⟨ys, hys⟩ := LockedObject.step_refines hrefines x
  have hrun : Avoids (· ≠ .countOverflow) (run (AtomicMonitor.step LatchCode.body) a ys)
      (LatchMonitor.Inv n) :=
    avoids_run (C := fun _ _ => True) (fun _ y h _ => LatchMonitor.Inv.step h y) hinv
      (along_of_forall (fun _ _ => trivial) _ ys)
  rw [hs] at hys
  cases ha : run (AtomicMonitor.step LatchCode.body) a ys with
  | error e =>
    rw [ha] at hys
    cases hys
  | ok a' =>
    rw [ha] at hys
    exact ⟨a', hys, hrun.2 a' ha⟩

theorem Latched.opens (h : Latched n l) : CountDownLatch.Opens n l := by
  obtain ⟨a, hrefines, hinv⟩ := h
  exact CountDownLatch.opens_of_refines hrefines hinv

theorem Latched.advance_ok (h : Latched n l) (t : τ) (woken : Multiset τ)
    (hcount : (l.returned.map (·.2)).count .counted + 1 < n + 2 ^ 31) :
    ∃ l', l.advance LatchCode.body t woken = .ok l' := by
  obtain ⟨a, hrefines, hinv⟩ := h
  cases hs : l.advance LatchCode.body t woken with
  | ok l' => exact ⟨l', rfl⟩
  | error e =>
    obtain ⟨m, hm⟩ := hrefines.eval_of_error hs
    obtain ⟨last, hlast, hlength⟩ := hrefines.exists_last
    have hle : (last.map (·.2)).count .counted ≤ 1 :=
      List.count_le_length.trans (by simpa using hlength)
    have hdata := hinv.data_eq
    have hleast := (LatchCode.eval_error hm).2
    rw [hlast, List.map_append, List.count_append] at hdata
    push_cast at hdata
    omega

end Latched

namespace ThreadStart

structure Inv (s : ThreadStart) : Prop where
  latched : Latched 1 s.latch
  absent : s.starter = .creating ↔ s.started = .absent
  waited : ∀ r, (.starter, r) ∈ s.latch.returned → r = .waited
  counts_le : s.counts ≤ 1
  counts_iff : s.counts ≠ 0 ↔ s.Done
  starter : match s.starter with
    | .creating | .created => s.latch.thread .starter = .outside
    | .waiting => (s.latch.thread .starter).InCall .wait (· = .waited) ∨
      s.latch.thread .starter = .outside ∧ (.starter, .waited) ∈ s.latch.returned
    | .returned | .destroyed =>
      s.latch.thread .starter = .outside ∧ (.starter, .waited) ∈ s.latch.returned
  started : match s.started with
    | .absent | .entered | .identified => s.latch.thread .started = .outside
    | .counting => s.latch.thread .started = .outside ∨
      (s.latch.thread .started).InCall .countDown (· = .counted)
    | .running => s.latch.thread .started = .outside
  tid_pos : s.started ≠ .absent → s.started ≠ .entered → 0 < s.tid

variable {s s' : ThreadStart}

theorem new_inv : new.Inv where
  latched := latched_new
  absent := by decide
  waited := fun _ h => nomatch h
  counts_le := Nat.zero_le 1
  counts_iff := by simp [counts, Done, new, LockedObject.new]
  starter := rfl
  started := rfl
  tid_pos := fun h => absurd rfl h

/-- The latch has been passed only when the new thread has done with it. -/
theorem Inv.done (h : s.Inv) (hw : (.starter, .waited) ∈ s.latch.returned) : s.Done := by
  have hmem := List.mem_map_of_mem (f := Prod.snd) hw
  have hle := h.latched.opens.legal.waited hmem
  refine h.counts_iff.mp fun hzero => ?_
  rw [counts] at hzero
  omega

theorem Inv.advance_ok (h : s.Inv) (p : ThreadParty) (woken : Multiset ThreadParty) :
    ∃ latch, s.latch.advance LatchCode.body p woken = .ok latch := by
  have hcount := h.counts_le
  rw [counts] at hcount
  exact h.latched.advance_ok p woken (by omega)

theorem Inv.alive (h : s.Inv) (hdone : ¬ s.Done) : s.starter ≠ .destroyed := by
  intro hdestroyed
  have hstarter := h.starter
  rw [hdestroyed] at hstarter
  exact hdone (h.done hstarter.2)

theorem Inv.lock_free (h : s.Inv) (hstarter : s.latch.thread .starter = .outside)
    (hstarted : s.latch.thread .started = .outside) : s.latch.lock = .new := by
  obtain ⟨a, hrefines, -⟩ := h.latched
  have hmutex : ∀ p, s.latch.lock.mutex ≠ some p := by
    intro p hp
    have howns := (hrefines.owner_iff p).mp hp
    cases p
    · rw [hstarter] at howns
      exact howns
    · rw [hstarted] at howns
      exact howns
  have hholder : ∀ p, s.latch.lock.holder ≠ some p := by
    intro p hp
    have hinside := (hrefines.holder_iff p).mp hp
    cases p
    · rw [hstarter] at hinside
      exact hinside
    · rw [hstarted] at hinside
      exact hinside
  have hnone := Option.eq_none_iff_forall_ne_some.mpr hmutex
  have hnobody := Option.eq_none_iff_forall_ne_some.mpr hholder
  cases hlock : s.latch.lock
  rw [hlock] at hnone hnobody
  simp only at hnone hnobody
  rw [hnone, hnobody]
  rfl

theorem wait_returns : LatchCode.wait.Returns (· = .waited) := by
  intro count
  simp only
  split
  · trivial
  · rfl

theorem countDown_returns : LatchCode.countDown.Returns (· = .counted) := by
  intro count
  simp only
  split
  · trivial
  · exact fun _ _ => rfl

theorem Inv.starter_advance (h : s.Inv) (hstarter : s.starter = .waiting)
    (hin : (s.latch.thread .starter).InCall .wait (· = .waited)) {woken : Multiset ThreadParty}
    {latch : CountDownLatch ThreadParty}
    (hs : s.latch.advance LatchCode.body .starter woken = .ok latch) :
    ({ s with latch } : ThreadStart).Inv := by
  have hother := LockedObject.advance_other (u := .started) (by decide) hs
  have hlatched : Latched 1 latch := h.latched.step (x := .advance .starter woken) hs
  obtain ⟨hin', hreturned⟩ | ⟨hout, r, rfl, hreturned⟩ :=
    LockedObject.advance_inCall hin wait_returns hs
  · exact {
      latched := hlatched
      absent := h.absent
      waited := fun r hr => h.waited r (hreturned ▸ hr)
      counts_le := by
        rw [counts, hreturned]
        exact h.counts_le
      counts_iff := by
        simp only [counts, Done, hreturned, hother]
        exact h.counts_iff
      starter := by
        simp only [hstarter]
        exact .inl hin'
      started := by
        simp only [hother]
        exact h.started
      tid_pos := h.tid_pos }
  · exact {
      latched := hlatched
      absent := h.absent
      waited := by
        intro r hr
        rw [hreturned] at hr
        rcases List.mem_append.mp hr with hr | hr
        · exact h.waited r hr
        · cases List.mem_singleton.mp hr
          rfl
      counts_le := by
        simp only [counts, hreturned, List.map_append, List.count_append]
        exact h.counts_le
      counts_iff := by
        simp only [counts, Done, hreturned, hother, List.map_append, List.count_append]
        exact h.counts_iff
      starter := by
        simp only [hstarter]
        exact .inr ⟨hout, by simp [hreturned]⟩
      started := by
        simp only [hother]
        exact h.started
      tid_pos := h.tid_pos }

theorem Inv.started_advance (h : s.Inv) (hstarted : s.started = .counting)
    (hin : (s.latch.thread .started).InCall .countDown (· = .counted))
    {woken : Multiset ThreadParty} {latch : CountDownLatch ThreadParty}
    (hs : s.latch.advance LatchCode.body .started woken = .ok latch) :
    ({ s with latch } : ThreadStart).Inv := by
  have hother := LockedObject.advance_other (u := .starter) (by decide) hs
  have hlatched : Latched 1 latch := h.latched.step (x := .advance .started woken) hs
  have hzero : s.counts = 0 := by
    by_contra hne
    have hout := (h.counts_iff.mp hne).1
    rw [hout] at hin
    exact hin
  obtain ⟨hin', hreturned⟩ | ⟨hout, r, rfl, hreturned⟩ :=
    LockedObject.advance_inCall hin countDown_returns hs
  · exact {
      latched := hlatched
      absent := h.absent
      waited := fun r hr => h.waited r (hreturned ▸ hr)
      counts_le := by
        rw [counts, hreturned]
        exact h.counts_le
      counts_iff := by
        rw [counts] at hzero
        simp only [counts, Done, hreturned, hzero, ne_eq, not_true, false_iff, not_and]
        intro hout
        rw [hout] at hin'
        cases hin'
      starter := by
        simp only [hother, hreturned]
        exact h.starter
      started := by
        simp only [hstarted]
        exact .inr hin'
      tid_pos := h.tid_pos }
  · rw [counts] at hzero
    exact {
      latched := hlatched
      absent := h.absent
      waited := by
        intro r hr
        rw [hreturned] at hr
        rcases List.mem_append.mp hr with hr | hr
        · exact h.waited r hr
        · cases List.mem_singleton.mp hr
      counts_le := by simp [counts, hreturned, hzero]
      counts_iff := by
        have hdone : latch.thread .started = .outside ∧
          (s.started = .counting ∨ s.started = .running) := ⟨hout, .inl hstarted⟩
        simp [counts, Done, hreturned, hzero, hdone]
      starter := by
        have hmem : ∀ r, r ∈ s.latch.returned → r ∈ latch.returned := by
          intro r hr
          simp [hreturned, hr]
        have hstarter := h.starter
        simp only [hother]
        split at hstarter
        case h_3 => exact hstarter.imp id fun hw => ⟨hw.1, hmem _ hw.2⟩
        case h_4 | h_5 => exact ⟨hstarter.1, hmem _ hstarter.2⟩
        all_goals exact hstarter
      started := by
        simp only [hstarted]
        exact .inl hout
      tid_pos := h.tid_pos }

theorem Inv.stepStarter (h : s.Inv) (woken : Multiset ThreadParty) :
    Yields (s.stepStarter woken) Inv := by
  unfold ThreadStart.stepStarter
  have hstarter := h.starter
  cases hphase : s.starter with
  | creating =>
    rw [hphase] at hstarter
    have habsent := h.absent.mp hphase
    have hstarted := h.started
    rw [habsent] at hstarted
    refine yields_ok.mpr ?_
    exact {
      latched := h.latched
      absent := by simp
      waited := h.waited
      counts_le := h.counts_le
      counts_iff := by
        have hiff := h.counts_iff
        rw [Done, habsent] at hiff
        exact hiff.trans (by simp [Done])
      starter := hstarter
      started := hstarted
      tid_pos := fun _ hne => absurd rfl hne }
  | created =>
    rw [hphase] at hstarter
    have hcall := LockedObject.step_call LatchCode.body hstarter .wait
    simp only
    rw [hcall]
    refine yields_ok.mpr ?_
    exact {
      latched := h.latched.step hcall
      absent := by simpa [hphase] using h.absent
      waited := h.waited
      counts_le := h.counts_le
      counts_iff := h.counts_iff
      starter := .inl (by simp [LockedObject.setPhase, LockPhase.InCall])
      started := h.started
      tid_pos := h.tid_pos }
  | waiting =>
    rw [hphase] at hstarter
    simp only
    rcases hstarter with hin | ⟨hout, hw⟩
    · obtain ⟨latch, hlatch⟩ := h.advance_ok .starter woken
      have hstep : LockedObject.step LatchCode.body s.latch (.advance .starter woken) =
        .ok latch := hlatch
      split
      · next hout =>
        rw [hout] at hin
        cases hin
      · rw [hstep]
        have hnext := h.starter_advance hphase hin hlatch
        rw [hphase] at hnext
        exact yields_ok.mpr hnext
    · have hdone := h.done hw
      have htid : 0 < s.tid := by
        refine h.tid_pos ?_ ?_ <;> rcases hdone.2 with hstarted | hstarted <;> simp [hstarted]
      simp only [hout]
      rw [check_bind_of_true htid]
      refine yields_ok.mpr ?_
      exact {
        latched := h.latched
        absent := by simpa [hphase] using h.absent
        waited := h.waited
        counts_le := h.counts_le
        counts_iff := h.counts_iff
        starter := ⟨hout, hw⟩
        started := h.started
        tid_pos := h.tid_pos }
  | returned =>
    rw [hphase] at hstarter
    have hlock := h.lock_free hstarter.1 (h.done hstarter.2).1
    simp only
    rw [check_bind_of_true hlock]
    refine yields_ok.mpr ?_
    exact {
      latched := h.latched
      absent := by simpa [hphase] using h.absent
      waited := h.waited
      counts_le := h.counts_le
      counts_iff := h.counts_iff
      starter := hstarter
      started := h.started
      tid_pos := h.tid_pos }
  | destroyed => exact yields_ok.mpr h

theorem Inv.stepStarted (h : s.Inv) (tid : ℕ+) (woken : Multiset ThreadParty) :
    Yields (s.stepStarted tid woken) Inv := by
  unfold ThreadStart.stepStarted
  have hstarted := h.started
  cases hphase : s.started with
  | absent => exact yields_ok.mpr h
  | entered =>
    rw [hphase] at hstarted
    have hdone : ¬ s.Done := by
      rintro ⟨-, hd⟩
      simp [hphase] at hd
    simp only
    rw [check_bind_of_true (h.alive hdone)]
    refine yields_ok.mpr ?_
    exact {
      latched := h.latched
      absent := by simpa [hphase] using h.absent
      waited := h.waited
      counts_le := h.counts_le
      counts_iff := h.counts_iff.trans (iff_of_false hdone (by simp [Done]))
      starter := h.starter
      started := hstarted
      tid_pos := fun _ _ => tid.pos }
  | identified =>
    rw [hphase] at hstarted
    have hdone : ¬ s.Done := by
      rintro ⟨-, hd⟩
      simp [hphase] at hd
    have hcall := LockedObject.step_call LatchCode.body hstarted .countDown
    have htid := h.tid_pos (by simp [hphase]) (by simp [hphase])
    simp only
    rw [check_bind_of_true (h.alive hdone), hcall]
    refine yields_ok.mpr ?_
    exact {
      latched := h.latched.step hcall
      absent := by simpa [hphase] using h.absent
      waited := h.waited
      counts_le := h.counts_le
      counts_iff := by
        refine h.counts_iff.trans (iff_of_false hdone ?_)
        simp [Done, LockedObject.setPhase]
      starter := h.starter
      started := .inr (by simp [LockedObject.setPhase, LockPhase.InCall])
      tid_pos := fun _ _ => htid }
  | counting =>
    rw [hphase] at hstarted
    have htid := h.tid_pos (by simp [hphase]) (by simp [hphase])
    simp only
    rcases hstarted with hout | hin
    · simp only [hout]
      refine yields_ok.mpr ?_
      exact {
        latched := h.latched
        absent := by simpa [hphase] using h.absent
        waited := h.waited
        counts_le := h.counts_le
        counts_iff :=
          h.counts_iff.trans ⟨fun _ => ⟨hout, .inr rfl⟩, fun _ => ⟨hout, .inl hphase⟩⟩
        starter := h.starter
        started := hout
        tid_pos := fun _ _ => htid }
    · obtain ⟨latch, hlatch⟩ := h.advance_ok .started woken
      have hstep : LockedObject.step LatchCode.body s.latch (.advance .started woken) =
        .ok latch := hlatch
      split
      · next hout =>
        rw [hout] at hin
        cases hin
      · next hne =>
        have hdone : ¬ s.Done := fun hd => hne hd.1
        rw [check_bind_of_true (h.alive hdone), hstep]
        have hnext := h.started_advance hphase hin hlatch
        rw [hphase] at hnext
        exact yields_ok.mpr hnext
  | running => exact yields_ok.mpr h

theorem Inv.step (h : s.Inv) (label : ThreadStartLabel) : Yields (s.step label) Inv := by
  cases label with
  | starter woken => exact h.stepStarter woken
  | started tid woken => exact h.stepStarted tid woken
  | wakeUp p =>
    obtain ⟨cond, hcond⟩ := LockedObject.step_wakeUp LatchCode.body s.latch p
    simp only [ThreadStart.step]
    rw [hcond]
    refine yields_ok.mpr ?_
    exact {
      latched := h.latched.step hcond
      absent := h.absent
      waited := h.waited
      counts_le := h.counts_le
      counts_iff := h.counts_iff
      starter := h.starter
      started := h.started
      tid_pos := h.tid_pos }

def next : ThreadParty → ThreadStartLabel
  | .starter => .starter 0
  | .started => .started 1 0

def InLatch (s : ThreadStart) : ThreadParty → Prop
  | .starter => s.starter = .waiting
  | .started => s.started = .counting

def Leads (s s' : ThreadStart) : Prop := ∃ labels, run step s labels = .ok s'

theorem leads_refl (s : ThreadStart) : s.Leads s := ⟨[], rfl⟩

theorem Leads.of_step {label : ThreadStartLabel} {s₁ : ThreadStart} (hs : s.step label = .ok s₁)
    (h : s₁.Leads s') : s.Leads s' := by
  obtain ⟨labels, hrun⟩ := h
  exact ⟨label :: labels, by rwa [run_cons_of_ok hs]⟩

theorem Leads.trans {s₁ : ThreadStart} (h : s.Leads s₁) (h' : s₁.Leads s') : s.Leads s' := by
  obtain ⟨front, hfront⟩ := h
  obtain ⟨back, hback⟩ := h'
  exact ⟨front ++ back, by rw [run_append, hfront]; exact hback⟩

theorem Inv.step_next (h : s.Inv) {p : ThreadParty} (hp : s.InLatch p)
    (hne : s.latch.thread p ≠ .outside) {latch : CountDownLatch ThreadParty}
    (hs : s.latch.advance LatchCode.body p 0 = .ok latch) :
    s.step (next p) = .ok { s with latch } := by
  have hstep : LockedObject.step LatchCode.body s.latch (.advance p 0) = .ok latch := hs
  cases p with
  | starter =>
    have hphase : s.starter = .waiting := hp
    simp only [ThreadStart.step, next, ThreadStart.stepStarter, hphase]
    rw [hstep]
    rfl
  | started =>
    have hphase : s.started = .counting := hp
    have hdone : ¬ s.Done := fun hd => hne hd.1
    simp only [ThreadStart.step, next, ThreadStart.stepStarted, hphase]
    rw [check_bind_of_true (h.alive hdone), hstep]
    rfl

/-- A thread that alone goes on in the latch, by induction on the number of its steps. -/
theorem Inv.solo (h : s.Inv) {p : ThreadParty} (hp : s.InLatch p) (n : ℕ) :
    ∃ latch, run (LockedObject.step LatchCode.body) s.latch (List.replicate n (.advance p 0)) =
        .ok latch ∧ s.Leads { s with latch } ∧ ({ s with latch } : ThreadStart).Inv := by
  induction n generalizing s with
  | zero => exact ⟨s.latch, rfl, leads_refl s, h⟩
  | succ n ih =>
    obtain ⟨latch, hlatch⟩ := h.advance_ok p 0
    have hstep : LockedObject.step LatchCode.body s.latch (.advance p 0) = .ok latch := hlatch
    rw [List.replicate_succ, run_cons_of_ok hstep]
    by_cases hout : s.latch.thread p = .outside
    · rw [LockedObject.advance_outside hout] at hlatch
      cases hlatch
      exact ih h hp
    · have hnext := h.step_next hp hout hlatch
      have hinv := (h.step (next p)).of_eq hnext
      have hin : ({ s with latch } : ThreadStart).InLatch p := by
        cases p <;> exact hp
      obtain ⟨latch', hrun, hleads, hinv'⟩ := ih hinv hin
      exact ⟨latch', hrun, .of_step hnext hleads, hinv'⟩

theorem Inv.passes (h : s.Inv) {p : ThreadParty} (hp : s.InLatch p) (hpasses : s.latch.Passes p) :
    ∃ latch, s.Leads { s with latch } ∧ ({ s with latch } : ThreadStart).Inv ∧
      latch.thread p = .outside ∧ latch.lock.mutex = none := by
  obtain ⟨n, hn⟩ := hpasses
  obtain ⟨latch, hrun, hleads, hinv⟩ := h.solo hp n
  exact ⟨latch, hleads, hinv, hn.of_eq hrun⟩

theorem Inv.frees (h : s.Inv) (hwaiting : s.starter = .waiting) :
    ∃ latch, s.Leads { s with latch } ∧ ({ s with latch } : ThreadStart).Inv ∧
      latch.lock.mutex = none := by
  cases hmutex : s.latch.lock.mutex with
  | none => exact ⟨s.latch, leads_refl s, h, hmutex⟩
  | some p =>
    obtain ⟨a, hrefines, -⟩ := h.latched
    have howns := (hrefines.owner_iff p).mp hmutex
    have hp : s.InLatch p := by
      cases p with
      | starter => exact hwaiting
      | started =>
        have hstarted := h.started
        split at hstarted
        case h_4 hphase => exact hphase
        all_goals
          rw [hstarted] at howns
          exact howns.elim
    obtain ⟨n, hn⟩ := hrefines.guarded.frees p howns
    obtain ⟨latch, hrun, hleads, hinv⟩ := h.solo hp n
    exact ⟨latch, hleads, hinv, hn latch hrun⟩

theorem Inv.count_of_free (h : s.Inv) (hfree : s.latch.lock.mutex = none) :
    s.latch.data = 1 - s.counts := by
  obtain ⟨a, hrefines, hinv⟩ := h.latched
  obtain ⟨hdata, hresults⟩ := hrefines.free hfree
  rw [← hdata, hinv.data_eq, hresults, counts]

/-- A thread in the latch without the mutex is at the beginning of its call, or has waited. -/
theorem locking_or_blocked {m : LatchCall} {R : LatchResult → Prop}
    {phase : LockPhase ℤ Unit ThreadFault LatchCall LatchResult} (hin : phase.InCall m R)
    (howns : ¬ phase.Owns) : phase = .locking m ∨ phase = .blocked m () := by
  cases phase with
  | outside => cases hin
  | locking m' =>
    obtain rfl : m' = m := hin
    exact .inl rfl
  | blocked m' c =>
    obtain rfl : m' = m := hin
    exact .inr rfl
  | _ => exact absurd trivial howns

theorem Inv.not_owns (h : s.Inv) (hfree : s.latch.lock.mutex = none) (p : ThreadParty) :
    ¬ (s.latch.thread p).Owns := by
  obtain ⟨a, hrefines, -⟩ := h.latched
  intro howns
  have hp := (hrefines.owner_iff p).mpr howns
  rw [hfree] at hp
  cases hp

theorem Inv.counts_down (h : s.Inv) (hstarted : s.started = .counting)
    (hfree : s.latch.lock.mutex = none) :
    ∃ latch, s.Leads { s with latch } ∧ ({ s with latch } : ThreadStart).Inv ∧
      latch.lock.mutex = none ∧ ({ s with latch } : ThreadStart).Done := by
  have hphase := h.started
  rw [hstarted] at hphase
  rcases hphase with hout | hin
  · exact ⟨s.latch, leads_refl s, h, hfree, hout, .inl hstarted⟩
  · have hlocking : s.latch.thread .started = .locking .countDown := by
      refine (locking_or_blocked hin (h.not_owns hfree .started)).resolve_right fun hblocked => ?_
      -- only `Wait` waits
      obtain ⟨a, hrefines, hinv⟩ := h.latched
      have hcall := hrefines.call_eq .started
      rw [hblocked] at hcall
      cases hinv.waits .started .countDown () hcall
    have hcount := h.count_of_free hfree
    have hle := h.counts_le
    have hpasses := CountDownLatch.passes_of_countDown hlocking hfree (by omega)
    obtain ⟨latch, hleads, hinv, hout, hfree'⟩ := h.passes (p := .started) hstarted hpasses
    exact ⟨latch, hleads, hinv, hfree', hout, .inl hstarted⟩

theorem Inv.step_entered (h : s.Inv) (hphase : s.started = .entered) :
    s.step (next .started) = .ok { s with tid := 1, started := .identified } := by
  have hdone : ¬ s.Done := by
    rintro ⟨-, hd⟩
    simp [hphase] at hd
  simp only [ThreadStart.step, next, ThreadStart.stepStarted, hphase]
  rw [check_bind_of_true (h.alive hdone)]
  rfl

theorem Inv.step_identified (h : s.Inv) (hphase : s.started = .identified) :
    s.step (next .started) = .ok { s with
      latch := s.latch.setPhase .started (.locking .countDown), started := .counting } := by
  have hdone : ¬ s.Done := by
    rintro ⟨-, hd⟩
    simp [hphase] at hd
  have hout := h.started
  rw [hphase] at hout
  have hcall := LockedObject.step_call LatchCode.body hout .countDown
  simp only [ThreadStart.step, next, ThreadStart.stepStarted, hphase]
  rw [check_bind_of_true (h.alive hdone), hcall]
  rfl

/-- `Start` waits, nobody has the mutex, and the new thread has done with the latch. -/
structure Open (s : ThreadStart) : Prop where
  inv : s.Inv
  waiting : s.starter = .waiting
  free : s.latch.lock.mutex = none
  done : s.Done

theorem Inv.leads_open (h : s.Inv) (hwaiting : s.starter = .waiting)
    (hfree : s.latch.lock.mutex = none) : ∃ s', s.Leads s' ∧ s'.Open := by
  have hcounting : ∀ s₁ : ThreadStart, s₁.Inv → s₁.starter = .waiting → s₁.started = .counting →
      s₁.latch.lock.mutex = none → ∃ s', s₁.Leads s' ∧ s'.Open := by
    intro s₁ h₁ hw hc hf
    obtain ⟨latch, hleads, hinv, hfree, hdone⟩ := h₁.counts_down hc hf
    exact ⟨_, hleads, hinv, hw, hfree, hdone⟩
  have hidentified : ∀ s₁ : ThreadStart, s₁.Inv → s₁.starter = .waiting →
      s₁.started = .identified → s₁.latch.lock.mutex = none →
      ∃ s', s₁.Leads s' ∧ s'.Open := by
    intro s₁ h₁ hw hi hf
    have hstep := h₁.step_identified hi
    have hinv := (h₁.step (next .started)).of_eq hstep
    obtain ⟨s', hleads, hopen⟩ := hcounting _ hinv hw rfl hf
    exact ⟨s', .of_step hstep hleads, hopen⟩
  cases hstarted : s.started with
  | absent =>
    have hcreating := h.absent.mpr hstarted
    rw [hwaiting] at hcreating
    cases hcreating
  | entered =>
    have hstep := h.step_entered hstarted
    have hinv := (h.step (next .started)).of_eq hstep
    obtain ⟨s', hleads, hopen⟩ := hidentified _ hinv hwaiting rfl hfree
    exact ⟨s', .of_step hstep hleads, hopen⟩
  | identified => exact hidentified s h hwaiting hstarted hfree
  | counting => exact hcounting s h hwaiting hstarted hfree
  | running =>
    have hout := h.started
    rw [hstarted] at hout
    exact ⟨s, leads_refl s, h, hwaiting, hfree, hout, .inr hstarted⟩

theorem Inv.leads_returned (h : s.Inv) (hwaiting : s.starter = .waiting)
    (hout : s.latch.thread .starter = .outside) :
    ∃ s', s.Leads s' ∧ s'.starter = .returned := by
  have hw := h.starter
  rw [hwaiting, hout] at hw
  have hdone := h.done (hw.elim False.elim And.right)
  have htid : 0 < s.tid := by
    refine h.tid_pos ?_ ?_ <;> rcases hdone.2 with hstarted | hstarted <;> simp [hstarted]
  have hstep : s.step (next .starter) = .ok { s with starter := .returned } := by
    simp only [ThreadStart.step, next, ThreadStart.stepStarter, hwaiting, hout]
    rw [check_bind_of_true htid]
    rfl
  exact ⟨_, .of_step hstep (leads_refl _), rfl⟩

theorem Open.leads_returned (h : s.Open) : ∃ s', s.Leads s' ∧ s'.starter = .returned := by
  by_cases hout : s.latch.thread .starter = .outside
  · exact h.inv.leads_returned h.waiting hout
  · have hphase := h.inv.starter
    rw [h.waiting] at hphase
    have hin := hphase.resolve_right fun hw => hout hw.1
    have hcount : s.latch.data ≤ 0 := by
      have hpos := h.inv.counts_iff.mpr h.done
      have hdata := h.inv.count_of_free h.free
      omega
    have hpasses := h.inv.latched.opens.passes .starter h.free hcount
      (locking_or_blocked hin (h.inv.not_owns h.free .starter))
    obtain ⟨latch, hleads, hinv, hout', -⟩ := h.inv.passes (p := .starter) h.waiting hpasses
    obtain ⟨s', hleads', hreturned⟩ := hinv.leads_returned h.waiting hout'
    exact ⟨s', hleads.trans hleads', hreturned⟩

theorem Inv.waiting_leads_returned (h : s.Inv) (hwaiting : s.starter = .waiting) :
    ∃ s', s.Leads s' ∧ s'.starter = .returned := by
  obtain ⟨latch, hleads, hinv, hfree⟩ := h.frees hwaiting
  obtain ⟨s₁, hleads₁, hopen⟩ := hinv.leads_open hwaiting hfree
  obtain ⟨s', hleads', hreturned⟩ := hopen.leads_returned
  exact ⟨s', (hleads.trans hleads₁).trans hleads', hreturned⟩

/-- Whatever has happened, `Start` can still return. -/
theorem Inv.can_return (h : s.Inv) (hdestroyed : s.starter ≠ .destroyed) :
    ∃ s', s.Leads s' ∧ s'.starter = .returned := by
  have hcreated : ∀ s₁ : ThreadStart, s₁.Inv → s₁.starter = .created →
      ∃ s', s₁.Leads s' ∧ s'.starter = .returned := by
    intro s₁ h₁ hphase
    have hout := h₁.starter
    rw [hphase] at hout
    have hcall := LockedObject.step_call LatchCode.body hout .wait
    have hstep : s₁.step (next .starter) = .ok { s₁ with
        latch := s₁.latch.setPhase .starter (.locking .wait), starter := .waiting } := by
      simp only [ThreadStart.step, next, ThreadStart.stepStarter, hphase]
      rw [hcall]
      rfl
    have hinv := (h₁.step (next .starter)).of_eq hstep
    obtain ⟨s', hleads, hreturned⟩ := hinv.waiting_leads_returned rfl
    exact ⟨s', .of_step hstep hleads, hreturned⟩
  cases hphase : s.starter with
  | creating =>
    have hstep : s.step (next .starter) =
        .ok { s with starter := .created, started := .entered } := by
      simp only [ThreadStart.step, next, ThreadStart.stepStarter, hphase]
      rfl
    have hinv := (h.step (next .starter)).of_eq hstep
    obtain ⟨s', hleads, hreturned⟩ := hcreated _ hinv rfl
    exact ⟨s', .of_step hstep hleads, hreturned⟩
  | created => exact hcreated s h hphase
  | waiting => exact h.waiting_leads_returned hphase
  | returned => exact ⟨s, leads_refl s, hphase⟩
  | destroyed => exact absurd hphase hdestroyed

/-- What a caller of `Start` may rely on. -/
structure Reliable (s : ThreadStart) : Prop where
  /-- When `Start` has returned, the new thread has its number in the `Thread` and never uses the
  `Thread` again. -/
  returned : s.starter = .returned ∨ s.starter = .destroyed → 0 < s.tid ∧ s.Done

  guarded : s.latch.Guarded LatchCode.body

  can_return : s.starter ≠ .destroyed → ∃ s', s.Leads s' ∧ s'.starter = .returned

theorem Inv.reliable (h : s.Inv) : s.Reliable where
  returned hphase := by
    have hw : (.starter, .waited) ∈ s.latch.returned := by
      have hstarter := h.starter
      rcases hphase with hphase | hphase <;> rw [hphase] at hstarter <;> exact hstarter.2
    have hdone := h.done hw
    refine ⟨?_, hdone⟩
    refine h.tid_pos ?_ ?_ <;> rcases hdone.2 with hstarted | hstarted <;> simp [hstarted]
  guarded := h.latched.opens.guarded
  can_return := h.can_return

end ThreadStart

end Dwater
