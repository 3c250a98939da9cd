import Dwater.Net.Timers.Handles

/-! # Runs of the timer queue

A run records the callbacks that `HandleRead` has called, the ids that `AddTimer` has
returned, and those whose `AddTimerInLoop` has run. No callback is called before the
expiration of its Timer, and that of a one-shot Timer is called once.
-/

set_option autoImplicit false
namespace Dwater

open Fallible

/-- A call of a callback: whose it is, what the Timer holds, and the `now` of the `HandleRead`. -/
@[ext] structure Firing where
  number : ℕ
  timer : TimerPtr
  value : Timer
  now : Timestamp
  deriving DecidableEq, Repr

def Firing.entry (f : Firing) : TimerEntry := toLex (f.value.expiration, f.timer)

namespace TimerQueue

variable {q q' : TimerQueue} {n : ℕ} {p : TimerPtr} {t : Timer} {now : Timestamp}

def firing (q : TimerQueue) (now : Timestamp) (it : TimerEntry) : Option Firing :=
  (q.heap.cell (ofLex it).2).map fun x => ⟨x.1, (ofLex it).2, x.2, now⟩

def calls (q : TimerQueue) : ClockedLabel → List Firing
  | .act .runCallback =>
    match q.batch with
    | some b => (b.upcoming.head?.bind (q.firing b.now)).toList
    | none => []
  | _ => []

def issues (q : TimerQueue) : ClockedLabel → List TimerHandle
  | .act (.newTimer timer _ _) =>
    if q.heap.get timer = none ∧ timer ≠ uintptrMax then [q.handle timer] else []
  | _ => []

def adds (q : TimerQueue) : ClockedLabel → List TimerHandle
  | .act (.addTimerInLoop timer) =>
    if timer ∈ q.waiting then
      ((q.heap.cell timer).map fun x => ⟨x.1, ⟨timer, x.2.sequence⟩⟩).toList
    else []
  | _ => []

theorem firing_eq {it : TimerEntry} (hc : q.heap.cell (ofLex it).2 = some (n, t)) :
    q.firing now it = some ⟨n, (ofLex it).2, t, now⟩ := by
  simp [firing, hc]

theorem calls_cons {b : ExpiredBatch} (hb : q.batch = some b) {it : TimerEntry}
    {its : List TimerEntry} (hu : b.upcoming = it :: its) :
    q.calls (.act .runCallback) = (q.firing b.now it).toList := by
  simp [calls, hb, hu]

theorem calls_of_ne {x : ClockedLabel} (hx : x ≠ .act .runCallback) : q.calls x = [] := by
  cases x with
  | setClock => rfl
  | act l =>
    cases l with
    | runCallback => exact absurd rfl hx
    | _ => rfl

theorem calls_nil {b : ExpiredBatch} (hb : q.batch = some b) (hu : b.upcoming = [])
    {x : ClockedLabel} : q.calls x = [] := by
  unfold calls
  split
  · simp [hb, hu]
  · rfl

/-- A step calls the callback of the first entry to come. -/
structure Calling (q : TimerQueue) (b : ExpiredBatch) (its : List TimerEntry) (f : Firing) :
    Prop where
  batch : q.batch = some b
  first : ∃ when, b.upcoming = toLex (when, f.timer) :: its
  cell : q.heap.cell f.timer = some (f.number, f.value)
  now_eq : f.now = b.now

theorem calls_cases (x : ClockedLabel) :
    q.calls x = [] ∨
      ∃ b its f, x = .act .runCallback ∧ q.calls x = [f] ∧ q.Calling b its f := by
  by_cases hx : x = .act .runCallback
  · subst hx
    cases hb : q.batch with
    | none => exact .inl (by simp [calls, hb])
    | some b =>
      cases hu : b.upcoming with
      | nil => exact .inl (calls_nil hb hu)
      | cons it its =>
        rw [calls_cons hb hu]
        cases hc : q.heap.cell (ofLex it).2 with
        | none => exact .inl (by simp [firing, hc])
        | some c =>
          rw [firing_eq hc]
          exact .inr ⟨b, its, _, rfl, rfl, hb, ⟨_, hu⟩, hc, rfl⟩
  · exact .inl (calls_of_ne hx)

end TimerQueue

/-- A queue with what has been called, returned and added so far. -/
structure TimerRun where
  queue : TimerQueue
  fired : List Firing
  issued : List TimerHandle
  added : List TimerHandle

namespace TimerRun

def new (now : Timestamp) : TimerRun := ⟨.new now, [], [], []⟩

def step (s : TimerRun) (x : ClockedLabel) : Except Fault TimerRun := do
  let queue ← s.queue.clockedStep x
  return ⟨queue, s.fired ++ s.queue.calls x, s.issued ++ s.queue.issues x,
    s.added ++ s.queue.adds x⟩

def since (s s' : TimerRun) : List Firing := s'.fired.drop s.fired.length

variable {s s' : TimerRun} {x : ClockedLabel} {calls : List Firing}

theorem since_eq (h : s'.fired = s.fired ++ calls) : s.since s' = calls := by
  simp [since, h]

theorem step_eq_ok (h : s.step x = .ok s') :
    s.queue.clockedStep x = .ok s'.queue ∧ s'.fired = s.fired ++ s.queue.calls x ∧
      s'.issued = s.issued ++ s.queue.issues x ∧ s'.added = s.added ++ s.queue.adds x := by
  obtain ⟨queue, hq, h⟩ := bind_eq_ok h
  cases h
  exact ⟨hq, rfl, rfl, rfl⟩

theorem along_true (s : TimerRun) (xs : List ClockedLabel) : Along step (fun _ _ => True) s xs :=
  along_of_forall (fun _ _ => trivial) s xs

theorem step_yields {P : TimerRun → Prop} (h : ∃ scheduled, s.queue.Inv scheduled)
    (hP : ∀ s', s.step x = .ok s' → (∃ scheduled, s'.queue.Inv scheduled) → P s') :
    Yields (s.step x) P := by
  obtain ⟨queue, hq, hinv⟩ := TimerQueue.clockedStep_inv s.queue x h
  have hs : s.step x = .ok ⟨queue, s.fired ++ s.queue.calls x, s.issued ++ s.queue.issues x,
      s.added ++ s.queue.adds x⟩ := by
    rw [step, hq]
    rfl
  exact ⟨_, hs, hP _ hs hinv⟩

end TimerRun

namespace TimerQueue

variable {q q' : TimerQueue} {scheduled : Finset TimerPtr} {x : ClockedLabel} {f : Firing}

/-- The callbacks to come are the last of the batch, and the batch is of Timers that are due. -/
structure BatchDue (q : TimerQueue) : Prop where
  suffix : ∀ b, q.batch = some b → b.upcoming <:+ b.expired
  due : ∀ b, q.batch = some b → ∀ e ∈ b.expired, (ofLex e).1 ≤ b.now ∧
    ∃ n t, q.heap.cell (ofLex e).2 = some (n, t) ∧ t.expiration = (ofLex e).1

theorem Stepped.batchDue (hs : Stepped scheduled q x q') (hinv : q.Inv scheduled)
    (h : q.BatchDue) : q'.BatchDue := by
  have hdue : x ≠ .act .finishRead → q'.batch = q.batch → q'.BatchDue := by
    intro hx hb
    constructor
    · rw [hb]
      exact h.suffix
    · intro b hb' e he
      rw [hb] at hb'
      rw [hs.cell_expired hinv hx (expiredTimers_eq hb' ▸ List.mem_map_of_mem he)]
      exact h.due b hb' e he
  cases hs with
  | idle | ignore => exact h
  | setClock | tick | newTimer | addTimerInLoop | drop | mark => exact hdue (by simp) rfl
  | handleRead =>
    constructor
    · rintro b hb
      cases hb
      exact List.suffix_rfl
    · rintro b hb e he
      cases hb
      obtain ⟨n, t, hsch, hle, heq⟩ := hinv.of_mem_dueEntries he
      have hexp : t.expiration = (ofLex e).1 := congrArg (fun e => (ofLex e).1) heq
      exact ⟨hexp ▸ hle, n, t, hsch.cell, hexp⟩
  | @runCallback b it its hb hu =>
    constructor
    · rintro b' hb'
      cases hb'
      have hsuffix := h.suffix b hb
      rw [hu] at hsuffix
      exact (List.suffix_cons it its).trans hsuffix
    · rintro b' hb' e he
      cases hb'
      exact h.due b hb e he
  | finishRead hb hu hq =>
    constructor
    · intro b hb'
      rw [hq.batch_eq] at hb'
      cases hb'
    · intro b hb'
      rw [hq.batch_eq] at hb'
      cases hb'

/-- The Timer of a call that has been made still repeats or not, and if not it waits in its batch
to be deleted. -/
structure Recalls (q : TimerQueue) (f : Firing) : Prop where
  lt_created : f.number < q.heap.created
  repeats_eq : ∀ {p t}, q.heap.cell p = some (f.number, t) → t.repeats = f.value.repeats
  spent : ∀ {p t}, q.heap.cell p = some (f.number, t) → t.repeats = false →
    p ∈ q.expiredTimers ∧ p ∉ pointers q.upcoming

theorem Stepped.recalls (hs : Stepped scheduled q x q') (hinv : q.Inv scheduled)
    (hle : q.heap.created ≤ q'.heap.created) (h : q.Recalls f) : q'.Recalls f := by
  constructor
  · exact lt_of_lt_of_le h.lt_created hle
  · intro p t' hc
    rcases hs.cell_old hinv hc h.lt_created with hold | ⟨b, t, -, -, -, hold, -, -, rfl⟩
    · exact h.repeats_eq hold
    · rw [← h.repeats_eq hold, Timer.restart_repeats]
  · intro p t' hc hone
    rcases hs.cell_old hinv hc h.lt_created with hold | ⟨b, t, -, -, -, -, hrep, -, rfl⟩
    · obtain ⟨hp, hup⟩ := h.spent hold hone
      by_cases hx : x = .act .finishRead
      · subst hx
        cases hs with
        | idle => exact ⟨hp, hup⟩
        | @finishRead b _ hb hu hq =>
          rcases hq.cell_old hinv hb hc with ⟨hnot, -⟩ | ⟨t, -, -, hrep, -, rfl⟩
          · exact absurd (expiredTimers_eq hb ▸ hp) hnot
          · rw [Timer.restart_repeats, hrep] at hone
            cases hone
      · refine ⟨hs.expired_kept hx hp, ?_⟩
        obtain ⟨b, hb⟩ := batch_of_mem_expired hp
        rw [upcoming_eq hb] at hup
        rcases hs.batch_kept hx hb with ⟨hb', -⟩ | ⟨it, its, -, hu, hb'⟩
        · rwa [upcoming_eq hb']
        · rw [upcoming_eq hb']
          rw [hu] at hup
          exact fun hm => hup (List.mem_cons_of_mem _ hm)
    · rw [Timer.restart_repeats, hrep] at hone
      cases hone

theorem Calling.mem_expired {b : ExpiredBatch} {its : List TimerEntry} (hf : q.Calling b its f)
    (hdue : q.BatchDue) : ∃ e ∈ b.expired, (ofLex e).2 = f.timer := by
  obtain ⟨when, hu⟩ := hf.first
  refine ⟨toLex (when, f.timer), (hdue.suffix b hf.batch).subset ?_, rfl⟩
  rw [hu]
  exact List.mem_cons_self

theorem Calling.recalls {b : ExpiredBatch} {its : List TimerEntry} (hf : q.Calling b its f)
    (hinv : q.Inv scheduled) (hdue : q.BatchDue) (hs : Stepped scheduled q (.act .runCallback) q') :
    q'.Recalls f := by
  obtain ⟨when, hu⟩ := hf.first
  have hnd : (pointers b.upcoming).Nodup := by
    have hexp := expiredTimers_eq hf.batch ▸ hinv.owned.nodup
    exact hexp.sublist ((hdue.suffix b hf.batch).sublist.map _)
  obtain ⟨e, he, hptr⟩ := hf.mem_expired hdue
  rw [hu] at hnd
  cases hs with
  | idle hl =>
    refine absurd (fun hnil => ?_) hl
    rw [TimerQueue.upcoming_eq hf.batch, hu] at hnil
    cases hnil
  | @runCallback b' it its' hb hu' =>
    obtain rfl : b = b' := Option.some.inj (hf.batch.symm.trans hb)
    obtain ⟨rfl, rfl⟩ := List.cons.inj (hu.symm.trans hu')
    have hown : ∀ {p t}, q.heap.cell p = some (f.number, t) → p = f.timer ∧ t = f.value := by
      intro p t hc
      obtain rfl := q.heap.sound.cell_inj hc hf.cell rfl
      exact ⟨rfl, (Prod.mk.inj (Option.some.inj (hc.symm.trans hf.cell))).2⟩
    constructor
    · exact q.heap.sound.cell_lt hf.cell
    · intro p t hc
      rw [(hown hc).2]
    · intro p t hc _
      rw [(hown hc).1]
      exact ⟨hptr ▸ List.mem_map_of_mem he, (List.nodup_cons.mp hnd).1⟩

end TimerQueue

namespace TimerRun

variable {s s' : TimerRun} {x : ClockedLabel}

/-- The calls made so far were due, and there was one at most of a one-shot Timer. -/
structure Timely (s : TimerRun) : Prop where
  queue : ∃ scheduled, s.queue.Inv scheduled
  due : s.queue.BatchDue
  in_time : ∀ f ∈ s.fired, f.value.expiration ≤ f.now
  recalls : ∀ f ∈ s.fired, s.queue.Recalls f
  once : s.fired.Pairwise fun f g =>
    f.number = g.number → f.value.repeats = true ∧ g.value.repeats = true

theorem new_timely (now : Timestamp) : (new now).Timely := by
  refine ⟨⟨∅, TimerQueue.new_inv now⟩, ⟨?_, ?_⟩, ?_, ?_, List.Pairwise.nil⟩
  · intro b hb
    cases hb
  · intro b hb
    cases hb
  · exact fun f hf => absurd hf List.not_mem_nil
  · exact fun f hf => absurd hf List.not_mem_nil

theorem step_timely (s : TimerRun) (x : ClockedLabel) (h : s.Timely) :
    Yields (s.step x) Timely := by
  refine step_yields h.queue fun s' hs' hinv' => ?_
  obtain ⟨scheduled, hinv⟩ := h.queue
  obtain ⟨hq, hfired, -, -⟩ := step_eq_ok hs'
  have hs := hinv.stepped hq
  have hdue := hs.batchDue hinv h.due
  obtain ⟨l, hevolves⟩ := TimerQueue.evolves_clocked hinv hq
  have hold : ∀ f ∈ s.fired, s'.queue.Recalls f := by
    intro f hf
    exact hs.recalls hinv hevolves.created_le (h.recalls f hf)
  rcases TimerQueue.calls_cases (q := s.queue) x with hnil | ⟨b, its, f, rfl, hcalls, hf⟩
  · rw [hnil, List.append_nil] at hfired
    exact ⟨hinv', hdue, hfired ▸ h.in_time, hfired ▸ hold, hfired ▸ h.once⟩
  · rw [hcalls] at hfired
    refine ⟨hinv', hdue, ?_, ?_, ?_⟩
    · rw [hfired]
      intro g hg
      rcases List.mem_append.mp hg with hg | hg
      · exact h.in_time g hg
      · obtain rfl := List.mem_singleton.mp hg
        obtain ⟨e, he, hptr⟩ := hf.mem_expired h.due
        obtain ⟨hle, n, t, hc, hexp⟩ := h.due.due b hf.batch e he
        rw [hptr, hf.cell] at hc
        cases hc
        rw [hf.now_eq, hexp]
        exact hle
    · rw [hfired]
      intro g hg
      rcases List.mem_append.mp hg with hg | hg
      · exact hold g hg
      · obtain rfl := List.mem_singleton.mp hg
        exact hf.recalls hinv h.due hs
    · rw [hfired]
      refine List.pairwise_append.mpr ⟨h.once, List.pairwise_singleton _ _, ?_⟩
      intro g hg f' hf' hnumber
      obtain rfl := List.mem_singleton.mp hf'
      have hrecalls := h.recalls g hg
      have hcell := hf.cell
      rw [← hnumber] at hcell
      have hrep := hrecalls.repeats_eq hcell
      rw [← hrep, and_self]
      by_contra hone
      obtain ⟨when, hu⟩ := hf.first
      refine (hrecalls.spent hcell (Bool.eq_false_iff.mpr hone)).2 ?_
      rw [TimerQueue.upcoming_eq hf.batch, hu]
      exact List.mem_cons_self

end TimerRun

end Dwater
