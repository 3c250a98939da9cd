import Dwater.Net.Timers.Firing

/-! # A cancellation hits its own timer

Once `CancelInLoop` has run for a Timer that had been added, no later `HandleRead` calls its
callback. As long as no two ids have the same sequence number, `CancelInLoop` does nothing to
any other Timer, not even to one at the address of a Timer that has been deleted. A Timer
whose own id is not cancelled is called when it is due, and comes back if it repeats.
-/

set_option autoImplicit false
namespace Dwater

open Fallible

namespace TimerQueue

variable {q q' : TimerQueue} {scheduled : Finset TimerPtr} {n : ℕ} {p : TimerPtr} {t t' : Timer}
  {x : ClockedLabel}

/-- The Timer created as number `n` and what will become of it are the same. -/
structure SameTimer (q q' : TimerQueue) (n : ℕ) : Prop where
  cell_iff : ∀ p t, q'.heap.cell p = some (n, t) ↔ q.heap.cell p = some (n, t)
  timers_iff : ∀ p t, q.heap.cell p = some (n, t) →
    (toLex (t.expiration, p) ∈ q'.timers ↔ toLex (t.expiration, p) ∈ q.timers)
  active_iff : ∀ p t, q.heap.cell p = some (n, t) →
    ((p, t.sequence) ∈ q'.activeTimers ↔ (p, t.sequence) ∈ q.activeTimers)
  canceling_iff : ∀ p t, q.heap.cell p = some (n, t) →
    ((p, t.sequence) ∈ q'.cancelingTimers ↔ (p, t.sequence) ∈ q.cancelingTimers)
  waiting_eq : q'.waiting = q.waiting
  batch_eq : q'.batch = q.batch
  timerfd_eq : q'.timerfd = q.timerfd

theorem Stepped.sameTimer {timerId : TimerId}
    (hs : Stepped scheduled q (.act (.cancelInLoop timerId)) q')
    (hid : ∀ p t, q.heap.cell p = some (n, t) → timerId ≠ ⟨p, t.sequence⟩) :
    q.SameTimer q' n := by
  cases hs with
  | idle | ignore =>
    exact ⟨fun _ _ => Iff.rfl, fun _ _ _ => Iff.rfl, fun _ _ _ => Iff.rfl, fun _ _ _ => Iff.rfl,
      rfl, rfl, rfl⟩
  | @drop _ r u heq hr hu =>
    have hne : ∀ {p t}, q.heap.cell p = some (n, t) → p ≠ r := by
      rintro p t hc rfl
      refine hid p t hc (heq.trans ?_)
      rw [Option.some.inj (hu.symm.trans (Heap.get_eq_some.mpr ⟨n, hc⟩))]
    refine ⟨fun p t => ?_, fun p t hc => ?_, fun p t hc => ?_, fun _ _ _ => Iff.rfl, rfl, rfl, rfl⟩
    · exact drop_cell_eq_some.trans (and_iff_right_of_imp hne)
    · refine Finset.mem_erase.trans (and_iff_right fun he => hne hc ?_)
      exact congrArg (fun e => (ofLex e).2) he
    · refine Finset.mem_erase.trans (and_iff_right fun ha => hne hc ?_)
      exact congrArg Prod.fst ha
  | mark =>
    obtain ⟨r, m⟩ := timerId
    refine ⟨fun _ _ => Iff.rfl, fun _ _ _ => Iff.rfl, fun _ _ _ => Iff.rfl, fun p t hc => ?_,
      rfl, rfl, rfl⟩
    refine Finset.mem_insert.trans (or_iff_right fun ha => hid p t hc ?_)
    cases ha
    rfl

/-- The callback of the Timer is to come, at its expiration or in the batch. -/
def Awaited (q : TimerQueue) (n : ℕ) (p : TimerPtr) (t : Timer) : Prop :=
  q.Scheduled n p t ∨ (q.heap.cell p = some (n, t) ∧ p ∈ pointers q.upcoming)

theorem Stepped.awaited (hs : Stepped scheduled q x q') (hinv : q.Inv scheduled)
    (hx : x ≠ .act (.cancelInLoop ⟨p, t.sequence⟩)) (h : q.Awaited n p t) :
    (∃ f ∈ q.calls x, f.number = n) ∨ q'.Awaited n p t := by
  rcases h with h | ⟨hc, hp⟩
  · rcases hs.scheduled_kept hinv h with hkept | hcancel | ⟨readAt, rfl, -, hle⟩
    · exact .inr (.inl hkept)
    · exact absurd hcancel hx
    · cases hs with
      | idle => exact .inr (.inl h)
      | handleRead => exact .inr (.inr ⟨h.cell, (hinv.mem_due h.cell).mpr ⟨h, hle⟩⟩)
  · have hexp := hinv.expired_of_upcoming hp
    obtain ⟨b, hb⟩ := batch_of_mem_expired hexp
    rw [TimerQueue.upcoming_eq hb] at hp
    by_cases hfin : x = .act .finishRead
    · subst hfin
      cases hs with
      | idle => exact .inr (.inr ⟨hc, by rwa [TimerQueue.upcoming_eq hb]⟩)
      | finishRead hb' hu =>
        cases hb.symm.trans hb'
        simp [hu, pointers] at hp
    · have hc' := (hs.cell_expired hinv hfin hexp).trans hc
      rcases hs.batch_kept hfin hb with ⟨hb', -⟩ | ⟨it, its, rfl, hu, hb'⟩
      · exact .inr (.inr ⟨hc', by rwa [TimerQueue.upcoming_eq hb']⟩)
      · rw [hu] at hp
        rcases List.mem_cons.mp hp with rfl | hp
        · refine .inl ⟨⟨n, (ofLex it).2, t, b.now⟩, ?_, rfl⟩
          rw [calls_cons hb hu, firing_eq hc]
          exact List.mem_singleton_self _
        · exact .inr (.inr ⟨hc', by rwa [TimerQueue.upcoming_eq hb']⟩)

/-- The Timer repeats, and is scheduled or will be put back by `Reset`. -/
def Recurring (q : TimerQueue) (n : ℕ) (p : TimerPtr) (t : Timer) : Prop :=
  t.repeats = true ∧ (q.Scheduled n p t ∨ (q.heap.cell p = some (n, t) ∧ p ∈ q.expiredTimers ∧
    (p, t.sequence) ∉ q.cancelingTimers))

theorem Stepped.recurring (hs : Stepped scheduled q x q') (hinv : q.Inv scheduled)
    (hf : q.BatchFlagged) (hx : x ≠ .act (.cancelInLoop ⟨p, t.sequence⟩))
    (h : q.Recurring n p t) : ∃ when, q'.Recurring n p { t with expiration := when } := by
  obtain ⟨hrep, h | ⟨hc, hp, hnot⟩⟩ := h
  · rcases hs.scheduled_kept hinv h with hkept | hcancel | ⟨readAt, rfl, -, hle⟩
    · exact ⟨t.expiration, hrep, .inl hkept⟩
    · exact absurd hcancel hx
    · cases hs with
      | idle => exact ⟨t.expiration, hrep, .inl h⟩
      | handleRead =>
        refine ⟨t.expiration, hrep, .inr ⟨h.cell, (hinv.mem_due h.cell).mpr ⟨h, hle⟩, ?_⟩⟩
        exact Finset.notMem_empty _
  · obtain ⟨b, hb⟩ := batch_of_mem_expired hp
    by_cases hfin : x = .act .finishRead
    · subst hfin
      cases hs with
      | idle => exact ⟨t.expiration, hrep, .inr ⟨hc, hp, hnot⟩⟩
      | @finishRead b' _ hb' hu hr =>
        cases hb.symm.trans hb'
        rw [expiredTimers_eq hb] at hp
        refine ⟨b.now.addTime t.interval, hrep, .inl ⟨?_, ?_⟩⟩
        · rw [hr.cell_expired p hp n t hc, settled, if_pos ⟨hrep, hnot⟩, Timer.restart_eq hrep]
        · rw [hr.mem_timers]
          exact .inr ⟨p, hp, t, ⟨Heap.get_eq_some.mpr ⟨n, hc⟩, hrep, hnot⟩, rfl⟩
    · have hns : p ∉ scheduled := hinv.owned.expired_not p hp
      have hc' := (hs.cell_expired hinv hfin hp).trans hc
      refine ⟨t.expiration, hrep, .inr ⟨hc', hs.expired_kept hfin hp, ?_⟩⟩
      rw [hs.mem_canceling (a := (p, t.sequence)) hfin hb hf hns, not_or]
      exact ⟨hnot, hx⟩

theorem Stepped.cell_issued (hs : Stepped scheduled q x q')
    (hc : q'.heap.cell p = some (n, t)) (hn : q.heap.created ≤ n) :
    ⟨n, ⟨p, t.sequence⟩⟩ ∈ q.issues x := by
  have hold : q'.heap.created = q.heap.created → ⟨n, ⟨p, t.sequence⟩⟩ ∈ q.issues x := by
    intro hcreated
    exact absurd (hcreated ▸ q'.heap.sound.cell_lt hc) (not_lt_of_ge hn)
  cases hs with
  | idle | setClock | tick | addTimerInLoop | mark | ignore | handleRead | runCallback =>
    exact hold rfl
  | drop => exact hold (Heap.created_delete _ _)
  | finishRead _ _ hr => exact hold hr.created_eq
  | @newTimer r when interval hr =>
    rw [issues, if_pos hr]
    by_cases hpr : p = r
    · subst hpr
      rw [Heap.cell_new hr.1, Function.update_self] at hc
      cases hc
      exact List.mem_singleton_self _
    · rw [Heap.cell_new_of_ne hr.1 hpr] at hc
      exact absurd (q.heap.sound.cell_lt hc) (not_lt_of_ge hn)

theorem unadded_of_adds {h : TimerHandle} (hh : h ∈ q.adds x) :
    x = .act (.addTimerInLoop h.timerId.timer) ∧ q.Unadded h := by
  unfold adds at hh
  split at hh
  · next p =>
    split at hh
    · next hp =>
      simp only [Option.mem_toList, Option.map_eq_some_iff] at hh
      obtain ⟨⟨n, t⟩, hc, rfl⟩ := hh
      refine ⟨rfl, ⟨q.heap.sound.cell_lt hc, ?_⟩, hp, t, hc⟩
      intro r u hr
      obtain rfl := q.heap.sound.cell_inj hr hc rfl
      cases hr.symm.trans hc
      rfl
    · cases hh
  · cases hh

end TimerQueue

namespace TimerRun

open TimerQueue

variable {s s' : TimerRun} {x : ClockedLabel} {n : ℕ} {p : TimerPtr} {t : Timer}

/-- Every Timer alive is that of an id returned, and those of the ids added have been added. -/
structure Handled (s : TimerRun) : Prop where
  queue : ∃ scheduled, s.queue.Inv scheduled
  flagged : s.queue.BatchFlagged
  issued : ∀ {p n t}, s.queue.heap.cell p = some (n, t) → ⟨n, ⟨p, t.sequence⟩⟩ ∈ s.issued
  added : ∀ h ∈ s.added, s.queue.Added h

theorem new_handled (now : Timestamp) : (new now).Handled := by
  refine ⟨⟨∅, new_inv now⟩, rfl, ?_, fun h hh => absurd hh List.not_mem_nil⟩
  intro p n t hc
  cases hc

theorem step_handled (s : TimerRun) (x : ClockedLabel) (h : s.Handled) :
    Yields (s.step x) Handled := by
  refine step_yields h.queue fun s' hs' hinv' => ?_
  obtain ⟨scheduled, hinv⟩ := h.queue
  obtain ⟨hq, -, hissued, hadded⟩ := step_eq_ok hs'
  obtain ⟨l, hevolves⟩ := evolves_clocked hinv hq
  refine ⟨hinv', (hinv.stepped hq).batchFlagged h.flagged, ?_, ?_⟩
  · intro p n t' hc
    rw [hissued]
    rcases lt_or_ge n s.queue.heap.created with hn | hn
    · obtain ⟨t, hc₀, hseq⟩ := hevolves.cell_old hc hn
      rw [← hseq]
      exact List.mem_append_left _ (h.issued hc₀)
    · exact List.mem_append_right _ ((hinv.stepped hq).cell_issued hc hn)
  · intro g hg
    rw [hadded] at hg
    rcases List.mem_append.mp hg with hg | hg
    · exact (h.added g hg).evolves hevolves
    · obtain ⟨rfl, hu⟩ := unadded_of_adds hg
      exact hu.addTimerInLoop hinv hq

/-- The Timer has been deleted, and its callback has not been called since an earlier state. -/
structure Silenced (n : ℕ) (s s' : TimerRun) : Prop where
  queue : ∃ scheduled, s'.queue.Inv scheduled
  lt_created : n < s'.queue.heap.created
  dead : ∀ {p t}, s'.queue.heap.cell p ≠ some (n, t)
  fired : ∃ calls, s'.fired = s.fired ++ calls ∧ ∀ f ∈ calls, f.number ≠ n

theorem Silenced.step {s₀ : TimerRun} (h : Silenced n s₀ s) :
    Yields (s.step x) (Silenced n s₀) := by
  refine step_yields h.queue fun s' hs' hinv' => ?_
  obtain ⟨scheduled, hinv⟩ := h.queue
  obtain ⟨hq, hfired, -, -⟩ := step_eq_ok hs'
  obtain ⟨l, hevolves⟩ := evolves_clocked hinv hq
  obtain ⟨calls, hcalls, hnone⟩ := h.fired
  refine ⟨hinv', lt_of_lt_of_le h.lt_created hevolves.created_le, ?_, ?_⟩
  · intro p t hc
    obtain ⟨t', hc', -⟩ := hevolves.cell_old hc h.lt_created
    exact h.dead hc'
  · rw [hfired, hcalls, List.append_assoc]
    refine ⟨_, rfl, fun f hf => ?_⟩
    rcases List.mem_append.mp hf with hf | hf
    · exact hnone f hf
    · rcases calls_cases (q := s.queue) x with hnil | ⟨b, its, g, -, hg, hcalling⟩
      · rw [hnil] at hf
        cases hf
      · rw [hg, List.mem_singleton] at hf
        rintro rfl
        exact h.dead (hf ▸ hcalling.cell)

/-- The Timer is deleted or will be at the end of the `HandleRead`. -/
structure Cancelled (n : ℕ) (s : TimerRun) : Prop where
  queue : ∃ scheduled, s.queue.Inv scheduled
  lt_created : n < s.queue.heap.created
  doomed : s.queue.Doomed n

theorem Cancelled.step (h : Cancelled n s) : Yields (s.step x) (Cancelled n) := by
  refine step_yields h.queue fun s' hs' hinv' => ?_
  obtain ⟨scheduled, hinv⟩ := h.queue
  obtain ⟨l, hevolves⟩ := evolves_clocked hinv (step_eq_ok hs').1
  exact ⟨hinv', lt_of_lt_of_le h.lt_created hevolves.created_le,
    hevolves.doomed_kept h.lt_created h.doomed⟩

theorem Handled.cancelled (h : s.Handled) {g : TimerHandle} (hg : g ∈ s.added) :
    Yields (s.step (.act (.cancelInLoop g.timerId))) (Cancelled g.number) := by
  refine step_yields h.queue fun s' hs' hinv' => ?_
  obtain ⟨scheduled, hinv⟩ := h.queue
  have hq := (step_eq_ok hs').1
  obtain ⟨l, hevolves⟩ := evolves_clocked hinv hq
  have hadded := h.added g hg
  exact ⟨hinv', lt_of_lt_of_le hadded.refers.lt_created hevolves.created_le,
    hadded.cancelInLoop hinv h.flagged hq⟩

theorem Cancelled.silenced (h : Cancelled n s) (hb : s.queue.batch = none) : Silenced n s s :=
  ⟨h.queue, h.lt_created, h.doomed.of_batch_none hb, [], (List.append_nil _).symm,
    fun _ hf => absurd hf List.not_mem_nil⟩

/-- Since an earlier state the callback of the Timer has been called or is still to come, and if the
Timer repeats it will always come back. -/
structure Undisturbed (n : ℕ) (p : TimerPtr) (t : Timer) (s s' : TimerRun) : Prop where
  handled : s'.Handled
  fired : ∃ calls, s'.fired = s.fired ++ calls ∧
    ((∃ f ∈ calls, f.number = n) ∨ s'.queue.Awaited n p t)
  recurs : t.repeats = true → ∃ when, s'.queue.Recurring n p { t with expiration := when }

theorem Handled.undisturbed (h : s.Handled) (hsch : s.queue.Scheduled n p t) :
    Undisturbed n p t s s :=
  ⟨h, ⟨[], (List.append_nil _).symm, .inr (.inl hsch)⟩, fun hrep => ⟨_, hrep, .inl hsch⟩⟩

theorem Undisturbed.step {s₀ : TimerRun} (h : Undisturbed n p t s₀ s)
    (hx : x ≠ .act (.cancelInLoop ⟨p, t.sequence⟩)) : Yields (s.step x) (Undisturbed n p t s₀) := by
  refine step_yields h.handled.queue fun s' hs' _ => ?_
  obtain ⟨scheduled, hinv⟩ := h.handled.queue
  obtain ⟨hq, hfired, -, -⟩ := step_eq_ok hs'
  have hs := hinv.stepped hq
  refine ⟨(step_handled s x h.handled).of_eq hs', ?_, fun hrep => ?_⟩
  · obtain ⟨calls, hcalls, hcome⟩ := h.fired
    rw [hfired, hcalls, List.append_assoc]
    refine ⟨_, rfl, ?_⟩
    rcases hcome with ⟨f, hf, hnumber⟩ | hawaited
    · exact .inl ⟨f, List.mem_append_left _ hf, hnumber⟩
    · rcases hs.awaited hinv hx hawaited with ⟨f, hf, hnumber⟩ | hawaited
      · exact .inl ⟨f, List.mem_append_right _ hf, hnumber⟩
      · exact .inr hawaited
  · obtain ⟨when, hrecurs⟩ := h.recurs hrep
    exact hs.recurring (t := { t with expiration := when }) hinv h.handled.flagged hx hrecurs

/-- The ids of two Timers are different when no two sequence numbers are the same. -/
theorem Handled.timerId_ne (h : s.Handled) (hnd : (s.issued.map (·.timerId.sequence)).Nodup)
    {g : TimerHandle} (hg : g ∈ s.issued) (hn : n ≠ g.number)
    (hc : s.queue.heap.cell p = some (n, t)) : g.timerId ≠ ⟨p, t.sequence⟩ := by
  intro hid
  have heq : g = ⟨n, ⟨p, t.sequence⟩⟩ :=
    List.inj_on_of_nodup_map hnd hg (h.issued hc) (congrArg TimerId.sequence hid)
  exact hn (congrArg TimerHandle.number heq).symm

/-- After its cancellation a Timer is not called by any `HandleRead` that starts. -/
theorem Handled.cancel_silences (h : s.Handled) {g : TimerHandle} (hg : g ∈ s.added)
    (during : List ClockedLabel) :
    Yields (run step s (.act (.cancelInLoop g.timerId) :: during)) fun s₁ =>
      s₁.queue.batch = none → ∀ later, Yields (run step s₁ later) fun s₂ =>
        ∀ f ∈ s₁.since s₂, f.number ≠ g.number := by
  obtain ⟨s', hs', hcancelled⟩ := h.cancelled hg
  rw [run_cons_of_ok hs']
  refine (run_invariant (fun _ _ h _ => h.step) hcancelled (along_true s' during)).mono ?_
  intro s₁ h₁ hb later
  refine (run_invariant (fun _ _ h _ => h.step) (h₁.silenced hb) (along_true s₁ later)).mono ?_
  intro s₂ h₂
  obtain ⟨calls, hcalls, hnone⟩ := h₂.fired
  rw [since_eq hcalls]
  exact hnone

/-- A cancellation spares the Timers with another id. -/
theorem Handled.cancel_spares (h : s.Handled) {timerId : TimerId}
    (hid : ∀ p t, s.queue.heap.cell p = some (n, t) → timerId ≠ ⟨p, t.sequence⟩) :
    Yields (s.step (.act (.cancelInLoop timerId))) fun s' => s.queue.SameTimer s'.queue n := by
  refine step_yields h.queue fun s' hs' _ => ?_
  obtain ⟨scheduled, hinv⟩ := h.queue
  exact (hinv.stepped (step_eq_ok hs').1).sameTimer hid

theorem Handled.scheduled_kept (h : s.Handled) (hsch : s.queue.Scheduled n p t)
    {later : List ClockedLabel} (hnot : ¬ Cancels later p t) :
    Yields (run step s later) fun s' =>
      ((∃ f ∈ s.since s', f.number = n) ∨ s'.queue.Awaited n p t) ∧
      (t.repeats = true → ∃ when, s'.queue.Recurring n p { t with expiration := when }) := by
  have hne : ∀ x ∈ later, x ≠ .act (.cancelInLoop ⟨p, t.sequence⟩) := by
    rintro x hx rfl
    exact hnot hx
  refine (run_invariant (fun _ _ h hx => h.step hx) (h.undisturbed hsch)
    (along_of_mem hne s)).mono ?_
  intro s' h'
  obtain ⟨calls, hcalls, hcome⟩ := h'.fired
  rw [since_eq hcalls]
  exact ⟨hcome, h'.recurs⟩

theorem Handled.scheduled_called (h : s.Handled) (hsch : s.queue.Scheduled n p t)
    (hb : s.queue.batch = none) {now readAt : Timestamp} (hnow : now ≤ readAt)
    {during : List ClockedLabel} (hduring : .act .finishRead ∉ during)
    (hdue : t.expiration ≤ now) :
    Yields (run step s (handleReadAt now readAt during)) fun s' =>
      s'.queue.batch = none → ∃ f ∈ s.since s', f.number = n := by
  refine (run_handleReadAt h.queue hb hnow hduring).mono fun s' hs' hb' => ?_
  have hcalled := ((hs'.1 hb').mem_calls ⟨n, p, t, now⟩).mpr
    ⟨⟨hsch.cell, hsch.mem_timers⟩, hdue, rfl⟩
  exact ⟨_, hcalled, rfl⟩

/--
Once the `CancelInLoop` of a Timer that has been added has run, no `HandleRead` that starts later
calls its callback. It does nothing to a Timer of another number, and a Timer whose own id is not
cancelled is called by the first `HandleRead` that finds it due, and comes back if it repeats.
-/
theorem cancel_hits_own_timer (start : Timestamp) (labels : List ClockedLabel) :
    Yields (run step (new start) labels) fun s =>
      (∀ h ∈ s.added, ∀ during,
        Yields (run step s (.act (.cancelInLoop h.timerId) :: during)) fun s₁ =>
          s₁.queue.batch = none → ∀ later, Yields (run step s₁ later) fun s₂ =>
            ∀ f ∈ s₁.since s₂, f.number ≠ h.number) ∧
      ((s.issued.map (·.timerId.sequence)).Nodup → ∀ h ∈ s.issued, ∀ n, n ≠ h.number →
        (∀ p t, s.queue.heap.cell p = some (n, t) → h.timerId ≠ ⟨p, t.sequence⟩) ∧
        Yields (s.step (.act (.cancelInLoop h.timerId))) fun s' => s.queue.SameTimer s'.queue n) ∧
      ∀ n p t, s.queue.Scheduled n p t →
        (∀ later, ¬ Cancels later p t → Yields (run step s later) fun s' =>
          ((∃ f ∈ s.since s', f.number = n) ∨ s'.queue.Awaited n p t) ∧
          (t.repeats = true → ∃ when, s'.queue.Recurring n p { t with expiration := when })) ∧
        (∀ now readAt during, s.queue.batch = none → now ≤ readAt → .act .finishRead ∉ during →
          t.expiration ≤ now → Yields (run step s (handleReadAt now readAt during)) fun s' =>
            s'.queue.batch = none → ∃ f ∈ s.since s', f.number = n) := by
  refine (run_invariant (fun s x h _ => step_handled s x h) (new_handled start)
    (along_true _ labels)).mono ?_
  intro s h
  refine ⟨fun g hg during => h.cancel_silences hg during, ?_, ?_⟩
  · intro hnd g hg n hn
    have hid : ∀ p t, s.queue.heap.cell p = some (n, t) → g.timerId ≠ ⟨p, t.sequence⟩ :=
      fun p t hc => h.timerId_ne hnd hg hn hc
    exact ⟨hid, h.cancel_spares hid⟩
  · intro n p t hsch
    constructor
    · exact fun later hnot => h.scheduled_kept hsch hnot
    · intro now readAt during hb hnow hduring hdue
      exact h.scheduled_called hsch hb hnow hduring hdue

end TimerRun

end Dwater
