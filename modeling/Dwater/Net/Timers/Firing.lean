import Dwater.Net.Timers.TimerRun

/-! # Timers fire exactly when due

A `HandleRead` calls the callbacks of the Timers that were in `timers_` and due when it
started, once each and in the order of their entries, whatever the callbacks add or cancel.
The other Timers stay as they are unless they are cancelled. A repeating Timer that has been
called and not cancelled is put back at `now` plus its interval.
-/

set_option autoImplicit false
namespace Dwater

open Fallible

def Cancels (done : List ClockedLabel) (p : TimerPtr) (t : Timer) : Prop :=
  .act (.cancelInLoop ⟨p, t.sequence⟩) ∈ done

def Adds (done : List ClockedLabel) (p : TimerPtr) : Prop := .act (.addTimerInLoop p) ∈ done

namespace TimerQueue

variable {q q' : TimerQueue} {scheduled : Finset TimerPtr} {n : ℕ} {p : TimerPtr} {t : Timer}
  {x : ClockedLabel} {done : List ClockedLabel}

def dueNow (q : TimerQueue) : List TimerEntry := q.dueEntries q.clock

def dueCalls (q : TimerQueue) (entries : List TimerEntry) : List Firing :=
  entries.filterMap (q.firing q.clock)

theorem Inv.mem_due (hinv : q.Inv scheduled) (hc : q.heap.cell p = some (n, t)) :
    p ∈ pointers q.dueNow ↔ q.Scheduled n p t ∧ t.expiration ≤ q.clock := by
  constructor
  · intro hp
    obtain ⟨e, he, rfl⟩ := List.mem_map.mp hp
    obtain ⟨m, u, hsch, hle, -⟩ := hinv.of_mem_dueEntries he
    cases hc.symm.trans hsch.cell
    exact ⟨hsch, hle⟩
  · intro h
    exact List.mem_map.mpr ⟨_, (hinv.mem_dueEntries hc).mpr h, rfl⟩

theorem dueCalls_append {es fs : List TimerEntry} :
    q.dueCalls (es ++ fs) = q.dueCalls es ++ q.dueCalls fs := List.filterMap_append

theorem Inv.entries_dueCalls (hinv : q.Inv scheduled) {entries : List TimerEntry}
    (hsub : ∀ e ∈ entries, e ∈ q.dueNow) : (q.dueCalls entries).map Firing.entry = entries := by
  induction entries with
  | nil => rfl
  | cons e entries ih =>
    obtain ⟨n, t, hsch, -, heq⟩ := hinv.of_mem_dueEntries (hsub e List.mem_cons_self)
    rw [dueCalls, List.filterMap_cons_some (firing_eq hsch.cell), List.map_cons, ← dueCalls,
      ih fun f hf => hsub f (List.mem_cons_of_mem _ hf)]
    exact congrArg (fun f => f :: entries) heq

theorem Inv.mem_dueCalls (hinv : q.Inv scheduled) {f : Firing} :
    f ∈ q.dueCalls q.dueNow ↔ q.Scheduled f.number f.timer f.value ∧
      f.value.expiration ≤ q.clock ∧ f.now = q.clock := by
  constructor
  · intro hf
    obtain ⟨e, he, hfe⟩ := List.mem_filterMap.mp hf
    obtain ⟨n, t, hsch, hle, -⟩ := hinv.of_mem_dueEntries he
    rw [firing_eq hsch.cell] at hfe
    cases hfe
    exact ⟨hsch, hle, rfl⟩
  · rintro ⟨hsch, hle, hnow⟩
    refine List.mem_filterMap.mpr ⟨f.entry, (hinv.mem_dueEntries hsch.cell).mpr ⟨hsch, hle⟩, ?_⟩
    rw [← hnow]
    have hc : q.heap.cell (ofLex f.entry).2 = some (f.number, f.value) := hsch.cell
    exact firing_eq hc

/--
`HandleRead` has started in `q` and returned in `q'`; it has made the calls while the other steps
of `during` were taken.
-/
structure ServesDue (q : TimerQueue) (during : List ClockedLabel) (calls : List Firing)
    (q' : TimerQueue) : Prop where
  sorted : (calls.map Firing.entry).Pairwise (· < ·)
  mem_calls : ∀ f, f ∈ calls ↔ q.Scheduled f.number f.timer f.value ∧
    f.value.expiration ≤ q.clock ∧ f.now = q.clock
  untouched : ∀ n p t, q.Scheduled n p t → q.clock < t.expiration → ¬ Cancels during p t →
    q'.Scheduled n p t
  rearmed : ∀ n p t, q.Scheduled n p t → t.expiration ≤ q.clock → t.repeats = true →
    ¬ Cancels during p t → q'.Scheduled n p { t with expiration := q.clock.addTime t.interval }
  origin : ∀ n p t', q'.Scheduled n p t' →
    (q.Scheduled n p t' ∧ q.clock < t'.expiration ∧ ¬ Cancels during p t') ∨
    (∃ t, q.Scheduled n p t ∧ t.expiration ≤ q.clock ∧ t.repeats = true ∧ ¬ Cancels during p t ∧
      t' = { t with expiration := q.clock.addTime t.interval }) ∨
    (Adds during p ∧ ∀ r u, ¬ q.Scheduled n r u)

end TimerQueue

namespace TimerRun

open TimerQueue

variable {q₀ : TimerQueue} {fired₀ : List Firing} {done : List ClockedLabel} {s s' : TimerRun}
  {x : ClockedLabel}

def callCount (done : List ClockedLabel) : ℕ := done.count (.act .runCallback)

/-- A `HandleRead` started in `q₀`, and the steps `done` have been taken since. -/
structure Serving (q₀ : TimerQueue) (fired₀ : List Firing) (done : List ClockedLabel)
    (s : TimerRun) : Prop where
  queue : ∃ scheduled, s.queue.Inv scheduled
  flagged : s.queue.BatchFlagged
  created_le : q₀.heap.created ≤ s.queue.heap.created
  batch_eq : s.queue.batch = some ⟨q₀.clock, q₀.dueNow, q₀.dueNow.drop (callCount done)⟩
  fired_eq : s.fired = fired₀ ++ q₀.dueCalls (q₀.dueNow.take (callCount done))
  due_kept : ∀ p ∈ pointers q₀.dueNow, s.queue.heap.cell p = q₀.heap.cell p
  marked : ∀ p ∈ pointers q₀.dueNow, ∀ t,
    (p, t.sequence) ∈ s.queue.cancelingTimers ↔ Cancels done p t
  kept : ∀ n p t, q₀.Scheduled n p t → q₀.clock < t.expiration → ¬ Cancels done p t →
    s.queue.Scheduled n p t
  origin : ∀ n p t, s.queue.Scheduled n p t →
    (q₀.Scheduled n p t ∧ q₀.clock < t.expiration ∧ ¬ Cancels done p t) ∨
    (Adds done p ∧ ∀ r u, ¬ q₀.Scheduled n r u)
  fresh : ∀ p ∈ s.queue.waiting, ∀ n t, s.queue.heap.cell p = some (n, t) →
    ∀ r u, ¬ q₀.Scheduled n r u

theorem Serving.expired_eq (h : Serving q₀ fired₀ done s) :
    s.queue.expiredTimers = pointers q₀.dueNow := expiredTimers_eq h.batch_eq

/-- `HandleRead` up to its first callback. -/
theorem serving_entered {scheduled : Finset TimerPtr} {readAt : Timestamp}
    (hinv : q₀.Inv scheduled) (hs : s.queue = q₀.entered readAt scheduled)
    (hinv' : ∃ scheduled, s.queue.Inv scheduled) : Serving q₀ s.fired [] s := by
  have hnot : ∀ p t, ¬ Cancels [] p t := fun p t => List.not_mem_nil
  refine ⟨hinv', ?_, ?_, ?_, ?_, ?_, ?_, ?_, ?_, ?_⟩
  · rw [hs]
    rfl
  · rw [hs]
    exact le_rfl
  · rw [hs]
    rfl
  · exact (List.append_nil _).symm
  · rw [hs]
    exact fun p _ => rfl
  · rw [hs]
    exact fun p _ t => iff_of_false (Finset.notMem_empty _) (hnot p t)
  · rw [hs]
    exact fun n p t hsch hlt _ => hinv.scheduled_entered.mpr ⟨hsch, hlt⟩
  · rw [hs]
    intro n p t hsch
    obtain ⟨hsch, hlt⟩ := hinv.scheduled_entered.mp hsch
    exact .inl ⟨hsch, hlt, hnot p t⟩
  · rw [hs]
    intro p hp n t hc r u hsch
    obtain rfl : p = r := q₀.heap.sound.cell_inj hc hsch.cell rfl
    exact (hinv.owned.waiting_not p hp).1 (hsch.mem hinv.owned.keyed)

theorem callCount_append : callCount (done ++ [x]) = callCount done + callCount [x] :=
  List.count_append

theorem callCount_of_ne (hx : x ≠ .act .runCallback) : callCount [x] = 0 := by
  simp [callCount, List.count_eq_zero, hx.symm]

theorem cancels_append {p : TimerPtr} {t : Timer} :
    Cancels (done ++ [x]) p t ↔ Cancels done p t ∨ x = .act (.cancelInLoop ⟨p, t.sequence⟩) := by
  simp [Cancels, eq_comm]

theorem Serving.progress (h : Serving q₀ fired₀ done s) {scheduled : Finset TimerPtr}
    (hs : Stepped scheduled s.queue x s'.queue) (hx : x ≠ .act .finishRead)
    (hfired : s'.fired = s.fired ++ s.queue.calls x) :
    s'.queue.batch = some ⟨q₀.clock, q₀.dueNow, q₀.dueNow.drop (callCount (done ++ [x]))⟩ ∧
      s'.fired = fired₀ ++ q₀.dueCalls (q₀.dueNow.take (callCount (done ++ [x]))) := by
  rw [callCount_append, hfired, h.fired_eq]
  rcases hs.batch_kept hx h.batch_eq with ⟨hb, hnil⟩ | ⟨it, its, rfl, hu, hb⟩
  · by_cases hcall : x = .act .runCallback
    · subst hcall
      have hle : q₀.dueNow.length ≤ callCount done := List.drop_eq_nil_iff.mp (hnil rfl)
      have hle' : q₀.dueNow.length ≤ callCount done + callCount [.act .runCallback] :=
        le_trans hle (Nat.le_add_right _ _)
      rw [calls_nil h.batch_eq (hnil rfl), hb, List.append_nil, List.take_of_length_le hle,
        List.take_of_length_le hle', List.drop_eq_nil_of_le hle, List.drop_eq_nil_of_le hle']
      exact ⟨rfl, rfl⟩
    · rw [callCount_of_ne hcall, calls_of_ne hcall, List.append_nil]
      exact ⟨hb, rfl⟩
  · replace hu : q₀.dueNow.drop (callCount done) = it :: its := hu
    have hone : callCount [.act .runCallback] = 1 := rfl
    have hit : q₀.dueNow[callCount done]? = some it := by
      rw [← List.head?_drop, hu]
      rfl
    have hmem : (ofLex it).2 ∈ pointers q₀.dueNow :=
      List.mem_map_of_mem (List.mem_of_getElem? hit)
    have hfiring : s.queue.firing q₀.clock it = q₀.firing q₀.clock it := by
      rw [firing, firing, h.due_kept _ hmem]
    rw [hone, calls_cons h.batch_eq hu, hb, ← List.tail_drop, hu, List.take_add_one, hit,
      dueCalls_append, List.append_assoc, hfiring]
    refine ⟨rfl, congrArg _ (congrArg _ ?_)⟩
    cases hf : q₀.firing q₀.clock it <;> simp [dueCalls, hf]

theorem Serving.step (h : Serving q₀ fired₀ done s) (hx : x ≠ .act .finishRead) :
    Yields (s.step x) (Serving q₀ fired₀ (done ++ [x])) := by
  refine step_yields h.queue fun s' hs' hinv' => ?_
  obtain ⟨scheduled, hinv⟩ := h.queue
  obtain ⟨hq, hfired, -, -⟩ := step_eq_ok hs'
  have hs := hinv.stepped hq
  obtain ⟨l, hevolves⟩ := evolves_clocked hinv hq
  have hcreated := le_trans h.created_le hevolves.created_le
  obtain ⟨hb, hf⟩ := h.progress hs hx hfired
  refine ⟨hinv', hs.batchFlagged h.flagged, hcreated, hb, hf, ?_, ?_, ?_, ?_, ?_⟩
  · intro p hp
    rw [hs.cell_expired hinv hx (h.expired_eq ▸ hp), h.due_kept p hp]
  · intro p hp t
    have hns : p ∉ scheduled := hinv.owned.expired_not p (h.expired_eq ▸ hp)
    rw [hs.mem_canceling hx h.batch_eq h.flagged hns, h.marked p hp t, cancels_append]
  · intro n p t hsch hlt hnot
    rw [cancels_append, not_or] at hnot
    rcases hs.scheduled_kept hinv (h.kept n p t hsch hlt hnot.1) with hkept | hcancel | hread
    · exact hkept
    · exact absurd hcancel hnot.2
    · obtain ⟨-, -, hnone, -⟩ := hread
      rw [h.batch_eq] at hnone
      cases hnone
  · intro n p t hsch
    rcases hs.scheduled_old hinv hsch with hold | ⟨rfl, hw, hc⟩ | ⟨-, -, rfl, -⟩
    · rcases h.origin n p t hold with ⟨hsch₀, hlt, hnot⟩ | ⟨hadds, hnew⟩
      · refine .inl ⟨hsch₀, hlt, ?_⟩
        rw [cancels_append, not_or]
        refine ⟨hnot, ?_⟩
        rintro rfl
        exact hs.not_scheduled hinv rfl hsch
      · exact .inr ⟨List.mem_append_left _ hadds, hnew⟩
    · exact .inr ⟨by simp [Adds], h.fresh p hw n t hc⟩
    · exact absurd rfl hx
  · intro p hp n t hc r u hsch
    have hn : n < s.queue.heap.created :=
      lt_of_lt_of_le (q₀.heap.sound.cell_lt hsch.cell) h.created_le
    obtain ⟨t₀, hc₀, -⟩ := hevolves.cell_old hc hn
    exact h.fresh p (hevolves.waiting_old hc₀ hp) n t₀ hc₀ r u hsch

/-- A repeating Timer that is due is put back unless it has been cancelled. -/
theorem Serving.rearmed_iff (h : Serving q₀ fired₀ done s) {p : TimerPtr} {t : Timer}
    (hp : p ∈ pointers q₀.dueNow) (ht : q₀.heap.get p = some t) :
    s.queue.Rearmed p t ↔ t.repeats = true ∧ ¬ Cancels done p t := by
  have hget : s.queue.heap.get p = some t := by
    rw [Heap.get, h.due_kept p hp]
    exact ht
  rw [Rearmed, h.marked p hp t]
  exact and_iff_right hget

theorem Serving.finish {scheduled : Finset TimerPtr} (h : Serving q₀ fired₀ done s)
    (hinv₀ : q₀.Inv scheduled) (hs' : s.step (.act .finishRead) = .ok s')
    (hb' : s'.queue.batch = none) : ∃ calls, s'.fired = fired₀ ++ calls ∧
      q₀.ServesDue done calls s'.queue := by
  obtain ⟨scheduled', hinv⟩ := h.queue
  obtain ⟨hq, hfired, -, -⟩ := step_eq_ok hs'
  rw [calls_of_ne (by simp), List.append_nil] at hfired
  have hs := hinv.stepped hq
  obtain ⟨hu, hr⟩ : q₀.dueNow.drop (callCount done) = [] ∧
      s.queue.Rescheduled ⟨q₀.clock, q₀.dueNow, q₀.dueNow.drop (callCount done)⟩ s'.queue := by
    generalize s'.queue = q' at hs hb'
    cases hs with
    | idle =>
      rw [h.batch_eq] at hb'
      cases hb'
    | finishRead hb hu hr =>
      cases h.batch_eq.symm.trans hb
      exact ⟨hu, hr⟩
  have hall : q₀.dueNow.take (callCount done) = q₀.dueNow :=
    List.take_of_length_le (List.drop_eq_nil_iff.mp hu)
  refine ⟨q₀.dueCalls q₀.dueNow, by rw [hfired, h.fired_eq, hall], ?_, ?_, ?_, ?_, ?_⟩
  · rw [hinv₀.entries_dueCalls fun _ he => he]
    exact (Finset.sortedLT_sort _).pairwise
  · exact fun f => hinv₀.mem_dueCalls
  · intro n p t hsch hlt hnot
    rcases hs.scheduled_kept hinv (h.kept n p t hsch hlt hnot) with hkept | hx | ⟨_, hx, -⟩
    · exact hkept
    · cases hx
    · cases hx
  · intro n p t hsch hle hrep hnot
    have hp := (hinv₀.mem_due hsch.cell).mpr ⟨hsch, hle⟩
    have hre := (h.rearmed_iff hp hsch.get).mpr ⟨hrep, hnot⟩
    rw [← Timer.restart_eq hrep]
    constructor
    · rw [hr.cell_expired p hp n t ((h.due_kept p hp).trans hsch.cell), settled, if_pos hre.2]
    · rw [hr.mem_timers, Timer.restart_expiration hrep]
      exact .inr ⟨p, hp, t, hre, rfl⟩
  · intro n p t' hsch
    rcases hs.scheduled_old hinv hsch with hold | ⟨hx, -⟩ | ⟨b, t, -, hb, hp, hc, hrep, hnot, rfl⟩
    · rcases h.origin n p t' hold with hkept | hadds
      · exact .inl hkept
      · exact .inr (.inr hadds)
    · cases hx
    · cases h.batch_eq.symm.trans hb
      rw [h.due_kept p hp] at hc
      obtain ⟨hsch₀, hle⟩ := (hinv₀.mem_due hc).mp hp
      rw [h.marked p hp t] at hnot
      exact .inr (.inl ⟨t, hsch₀, hle, hrep, hnot, Timer.restart_eq hrep⟩)

theorem Serving.returned (h : Serving q₀ fired₀ done s)
    (hs' : s.step (.act .finishRead) = .ok s') (hle : q₀.dueNow.length ≤ callCount done) :
    s'.queue.batch = none := by
  obtain ⟨scheduled, hinv⟩ := h.queue
  have hs := hinv.stepped (step_eq_ok hs').1
  generalize s'.queue = q' at hs
  cases hs with
  | idle hl => exact absurd ⟨_, h.batch_eq, List.drop_eq_nil_of_le hle⟩ hl
  | finishRead _ _ hr => exact hr.batch_eq

/-- `HandleRead` at a time, with the steps taken while its callbacks run. -/
def handleReadAt (now readAt : Timestamp) (during : List ClockedLabel) : List ClockedLabel :=
  .setClock now :: .act (.handleRead readAt) :: (during ++ [.act .finishRead])

theorem run_handleReadAt (hq : ∃ scheduled, s.queue.Inv scheduled) (hb : s.queue.batch = none)
    {now readAt : Timestamp} (hnow : now ≤ readAt) {during : List ClockedLabel}
    (hduring : .act .finishRead ∉ during) :
    Yields (run step s (handleReadAt now readAt during)) fun s' =>
      (s'.queue.batch = none → { s.queue with clock := now }.ServesDue during (s.since s') s'.queue)
        ∧ ({ s.queue with clock := now }.dueNow.length ≤ callCount during →
          s'.queue.batch = none) := by
  obtain ⟨s₁, hs₁, scheduled, hinv₁⟩ := step_yields (x := .setClock now) hq fun _ _ hinv => hinv
  obtain ⟨s₂, hs₂, hinv₂⟩ :=
    step_yields (x := .act (.handleRead readAt)) ⟨scheduled, hinv₁⟩ fun _ _ hinv => hinv
  rw [handleReadAt, run_cons_of_ok hs₁, run_cons_of_ok hs₂, run_append]
  obtain ⟨hq₁, hfired₁, -, -⟩ := step_eq_ok hs₁
  obtain ⟨hq₂, hfired₂, -, -⟩ := step_eq_ok hs₂
  rw [calls_of_ne (by simp), List.append_nil] at hfired₁ hfired₂
  have hclock : s₁.queue = { s.queue with clock := now } := (Except.ok.inj hq₁).symm
  have hentered : s₂.queue = s₁.queue.entered readAt scheduled := by
    have hs := hinv₁.stepped hq₂
    generalize s₂.queue = q₂ at hs
    cases hs with
    | idle hl =>
      refine absurd ⟨?_, ?_⟩ hl
      · rw [hclock]
        exact hb
      · rw [hclock]
        exact hnow
    | handleRead => rfl
  rw [← hclock]
  have hserving := serving_entered hinv₁ hentered hinv₂
  rw [hfired₂, hfired₁] at hserving
  have hne : ∀ x ∈ during, x ≠ .act .finishRead := by
    rintro x hx rfl
    exact hduring hx
  have hrun : Yields (run step s₂ during) (Serving s₁.queue s.fired ([] ++ during)) :=
    run_history (fun _ _ _ h hx => h.step hx) hserving (along_of_mem hne s₂)
  refine yields_bind hrun fun s₃ h₃ => ?_
  rw [List.nil_append] at h₃
  rw [run_singleton]
  refine step_yields h₃.queue fun s' hs' _ => ⟨fun hb' => ?_, h₃.returned hs'⟩
  obtain ⟨calls, hcalls, hserves⟩ := h₃.finish hinv₁ hs' hb'
  rw [since_eq hcalls]
  exact hserves

/-- Timers enter the sets by `AddTimerInLoop` and, at `now` plus their interval, by `Reset`; they
leave them when they are cancelled or due. -/
structure MovesTimers (q : TimerQueue) (x : ClockedLabel) (q' : TimerQueue) : Prop where
  entered : ∀ n p t', q'.Scheduled n p t' → q.Scheduled n p t' ∨
    (x = .act (.addTimerInLoop p) ∧ p ∈ q.waiting ∧ q.heap.cell p = some (n, t')) ∨
    ∃ b t, x = .act .finishRead ∧ q.batch = some b ∧ p ∈ pointers b.expired ∧
      q.heap.cell p = some (n, t) ∧ t.repeats = true ∧ (p, t.sequence) ∉ q.cancelingTimers ∧
      t' = { t with expiration := b.now.addTime t.interval }
  left : ∀ n p t, q.Scheduled n p t → q'.Scheduled n p t ∨
    x = .act (.cancelInLoop ⟨p, t.sequence⟩) ∨
    ∃ readAt, x = .act (.handleRead readAt) ∧ q.batch = none ∧ t.expiration ≤ q.clock

theorem movesTimers {scheduled : Finset TimerPtr} {q q' : TimerQueue}
    (hs : Stepped scheduled q x q') (hinv : q.Inv scheduled) : MovesTimers q x q' := by
  constructor
  · intro n p t' hsch
    rcases hs.scheduled_old hinv hsch with hold | hadd | ⟨b, t, hx, hb, hp, hc, hrep, hnot, rfl⟩
    · exact .inl hold
    · exact .inr (.inl hadd)
    · exact .inr (.inr ⟨b, t, hx, hb, hp, hc, hrep, hnot, Timer.restart_eq hrep⟩)
  · exact fun n p t hsch => hs.scheduled_kept hinv hsch

end TimerRun

end Dwater
