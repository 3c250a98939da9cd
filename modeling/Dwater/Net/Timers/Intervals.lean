import Dwater.Net.Timers.TimerRun

/-! # The intervals of repeating timers

Between two calls of its callback a repeating Timer is put back once, by the `Reset` of the
`HandleRead` that made the first of them, at the `now` of that `HandleRead` plus the interval.
-/

set_option autoImplicit false
namespace Dwater

open Fallible

def Firing.renewed (f : Firing) : Timer :=
  { f.value with expiration := f.now.addTime f.value.interval }

namespace TimerQueue

variable {q q' : TimerQueue} {scheduled : Finset TimerPtr} {x : ClockedLabel} {f g : Firing}
  {p : TimerPtr} {t t' : Timer} {n : ℕ}

def AwaitsReset (q : TimerQueue) (f : Firing) (t : Timer) : Prop :=
  t = f.value ∧ ∃ b, q.batch = some b ∧ b.now = f.now ∧ f.timer ∈ pointers b.expired ∧
    f.timer ∉ pointers b.upcoming

/-- The Timer of a call has been put back, and has not been called again. -/
def PutBack (q : TimerQueue) (f : Firing) (t : Timer) : Prop :=
  t = f.renewed ∧ ∀ b, q.batch = some b → f.timer ∈ pointers b.expired →
    f.timer ∈ pointers b.upcoming

/-- What has become of the Timer after its last call. -/
structure LastCall (q : TimerQueue) (f : Firing) : Prop where
  lt_created : f.number < q.heap.created
  timer : ∀ {p t}, q.heap.cell p = some (f.number, t) →
    p = f.timer ∧ (q.AwaitsReset f t ∨ q.PutBack f t)

theorem AwaitsReset.of_batch (h : q.AwaitsReset f t) (hb : q'.batch = q.batch) :
    q'.AwaitsReset f t := by
  obtain ⟨ht, b, hbatch, hrest⟩ := h
  exact ⟨ht, b, hb.trans hbatch, hrest⟩

theorem PutBack.of_batch (h : q.PutBack f t) (hb : q'.batch = q.batch) : q'.PutBack f t :=
  ⟨h.1, fun b hbatch => h.2 b (hb ▸ hbatch)⟩

/-- The steps that neither call a callback nor start or end a `HandleRead`. -/
theorem LastCall.of_batch (h : q.LastCall f) (hle : q.heap.created ≤ q'.heap.created)
    (hb : q'.batch = q.batch)
    (hcell : ∀ {p t}, q'.heap.cell p = some (f.number, t) → q.heap.cell p = some (f.number, t)) :
    q'.LastCall f := by
  refine ⟨h.lt_created.trans_le hle, fun {p t} hc => ?_⟩
  obtain ⟨hp, hstate⟩ := h.timer (hcell hc)
  exact ⟨hp, hstate.imp (·.of_batch hb) (·.of_batch hb)⟩

theorem LastCall.finishRead (h : q.LastCall f) (hinv : q.Inv scheduled) {b : ExpiredBatch}
    (hb : q.batch = some b) (hu : b.upcoming = []) (hq : q.Rescheduled b q') : q'.LastCall f := by
  have hcalled : ∀ {p t}, q.heap.cell p = some (f.number, t) → p ∈ pointers b.expired →
      q.AwaitsReset f t := by
    intro p t hc hp
    obtain ⟨rfl, hstate⟩ := h.timer hc
    refine hstate.resolve_right fun hback => ?_
    have hmem := hback.2 b hb hp
    rw [hu] at hmem
    cases hmem
  refine ⟨hq.created_eq ▸ h.lt_created, fun {p t'} hc => ?_⟩
  have hnone : ∀ b', q'.batch = some b' → f.timer ∈ pointers b'.expired →
      f.timer ∈ pointers b'.upcoming := by
    intro b' hb'
    rw [hq.batch_eq] at hb'
    cases hb'
  rcases hq.cell_old hinv hb hc with ⟨hnot, hold⟩ | ⟨t, hp, hold, hrep, -, rfl⟩
  · obtain ⟨rfl, hstate⟩ := h.timer hold
    rcases hstate with ⟨-, b', hb', -, hmem, -⟩ | ⟨ht, -⟩
    · cases hb.symm.trans hb'
      exact absurd hmem hnot
    · exact ⟨rfl, .inr ⟨ht, hnone⟩⟩
  · obtain ⟨rfl, b', hb', hnow, -⟩ := hcalled hold hp
    cases hb.symm.trans hb'
    refine ⟨(h.timer hold).1, .inr ⟨?_, hnone⟩⟩
    rw [Timer.restart_eq hrep, hnow]
    rfl

theorem Stepped.lastCall (hs : Stepped scheduled q x q') (hinv : q.Inv scheduled)
    (hle : q.heap.created ≤ q'.heap.created) (hcalls : ∀ c ∈ q.calls x, c.number ≠ f.number)
    (h : q.LastCall f) : q'.LastCall f := by
  have hkept : x ≠ .act .finishRead → ∀ {p t}, q'.heap.cell p = some (f.number, t) →
      q.heap.cell p = some (f.number, t) := by
    intro hx p t hc
    rcases hs.cell_old hinv hc h.lt_created with hold | ⟨b, t, hx', -⟩
    · exact hold
    · exact absurd hx' hx
  cases hs with
  | idle | ignore => exact h
  | setClock | tick | newTimer | addTimerInLoop | drop | mark =>
    exact h.of_batch hle rfl (hkept (by simp))
  | handleRead hb =>
    refine ⟨h.lt_created.trans_le hle, fun {p t} hc => ?_⟩
    obtain ⟨hp, hstate⟩ := h.timer (hkept (by simp) hc)
    refine ⟨hp, .inr ?_⟩
    rcases hstate with ⟨-, b, hb', -⟩ | ⟨ht, -⟩
    · cases hb.symm.trans hb'
    · refine ⟨ht, fun b hb' hmem => ?_⟩
      cases hb'
      exact hmem
  | @runCallback b it its hb hu =>
    refine ⟨h.lt_created.trans_le hle, fun {p t} hc => ?_⟩
    have hold := hkept (by simp) hc
    obtain ⟨rfl, hstate⟩ := h.timer hold
    refine ⟨rfl, ?_⟩
    rcases hstate with ⟨ht, b', hb', hnow, hmem, hnot⟩ | ⟨ht, hback⟩
    · cases hb.symm.trans hb'
      refine .inl ⟨ht, _, rfl, hnow, hmem, fun hup => hnot ?_⟩
      rw [hu]
      exact List.mem_cons_of_mem _ hup
    · refine .inr ⟨ht, fun b' hb' hmem => ?_⟩
      cases hb'
      have hup := hback b hb hmem
      rw [hu] at hup
      rcases List.mem_cons.mp hup with hit | hup
      · -- the call would be of the same Timer
        have hptr : f.timer = (ofLex it).2 := hit
        rw [hptr] at hold
        have hcall := calls_cons hb hu
        rw [firing_eq hold] at hcall
        rw [hcall] at hcalls
        exact (hcalls _ (List.mem_singleton_self _) rfl).elim
      · exact hup
  | finishRead hb hu hq => exact h.finishRead hinv hb hu hq

theorem Calling.lastCall {b : ExpiredBatch} {its : List TimerEntry} (hf : q.Calling b its f)
    (hinv : q.Inv scheduled) (hdue : q.BatchDue) (hs : Stepped scheduled q (.act .runCallback) q') :
    q'.LastCall f := by
  obtain ⟨when, hu⟩ := hf.first
  have hnd : (pointers b.upcoming).Nodup := by
    have hexp := expiredTimers_eq hf.batch ▸ hinv.owned.nodup
    exact hexp.sublist ((hdue.suffix b hf.batch).sublist.map _)
  obtain ⟨e, he, hptr⟩ := hf.mem_expired hdue
  rw [hu] at hnd
  cases hs with
  | idle hl =>
    refine absurd (fun hnil => ?_) hl
    rw [TimerQueue.upcoming_eq hf.batch, hu] at hnil
    cases hnil
  | @runCallback b' it its' hb hu' =>
    cases hf.batch.symm.trans hb
    cases hu.symm.trans hu'
    refine ⟨q.heap.sound.cell_lt hf.cell, fun {p t} hc => ?_⟩
    have hcell : q.heap.cell p = some (f.number, t) := hc
    obtain rfl := q.heap.sound.cell_inj hcell hf.cell rfl
    refine ⟨rfl, .inl ⟨?_, _, rfl, hf.now_eq.symm, hptr ▸ List.mem_map_of_mem he, ?_⟩⟩
    · exact (Prod.mk.inj (Option.some.inj (hcell.symm.trans hf.cell))).2
    · exact (List.nodup_cons.mp hnd).1

/-- A callback that is called again is that of the Timer that has been put back. -/
theorem Calling.renewed {b : ExpiredBatch} {its : List TimerEntry} (hg : q.Calling b its g)
    (h : q.LastCall f) (hnumber : g.number = f.number) :
    g.timer = f.timer ∧ g.value = f.renewed := by
  obtain ⟨when, hu⟩ := hg.first
  have hcell := hg.cell
  rw [hnumber] at hcell
  obtain ⟨hp, ⟨-, b', hb', -, -, hnot⟩ | ⟨ht, -⟩⟩ := h.timer hcell
  · cases hg.batch.symm.trans hb'
    refine absurd ?_ hnot
    rw [hu, ← hp]
    exact List.mem_cons_self
  · exact ⟨hp, ht⟩

end TimerQueue

namespace TimerRun

variable {s s' : TimerRun} {x : ClockedLabel}

/-- A call and the next one of the same Timer. -/
structure Renews (f g : Firing) : Prop where
  repeats : f.value.repeats = true
  timer_eq : g.timer = f.timer
  value_eq : g.value = f.renewed
  spaced : f.now.addTime f.value.interval ≤ g.now

/-- The calls of a Timer renew one another, and the last one leaves it to `Reset` or put back. -/
structure Spaced (s : TimerRun) : Prop where
  timely : s.Timely
  last : ∀ pre f post, s.fired = pre ++ f :: post → (∀ c ∈ post, c.number ≠ f.number) →
    s.queue.LastCall f
  renews : ∀ pre f mid g post, s.fired = pre ++ f :: (mid ++ g :: post) → g.number = f.number →
    (∀ c ∈ mid, c.number ≠ f.number) → Renews f g

theorem new_spaced (now : Timestamp) : (new now).Spaced where
  timely := new_timely now
  last pre f post h := by simp [new] at h
  renews pre f mid g post h := by simp [new] at h

theorem append_cons_eq_concat {α : Type} {pre post l : List α} {a c : α}
    (h : l ++ [c] = pre ++ a :: post) :
    (a = c ∧ post = [] ∧ pre = l) ∨ ∃ post', post = post' ++ [c] ∧ l = pre ++ a :: post' := by
  rcases post.eq_nil_or_concat with rfl | ⟨post', d, rfl⟩
  · obtain ⟨rfl, hc⟩ := List.append_inj' h rfl
    exact .inl ⟨(List.cons.inj hc).1.symm, rfl, rfl⟩
  · rw [List.concat_eq_append, ← List.cons_append, ← List.append_assoc] at h
    obtain ⟨rfl, hc⟩ := List.append_inj' h rfl
    cases hc
    exact .inr ⟨post', List.concat_eq_append, rfl⟩

theorem step_spaced (s : TimerRun) (x : ClockedLabel) (h : s.Spaced) :
    Yields (s.step x) Spaced := by
  obtain ⟨s', hs', htimely⟩ := step_timely s x h.timely
  refine ⟨s', hs', ?_⟩
  obtain ⟨scheduled, hinv⟩ := h.timely.queue
  obtain ⟨hq, hfired, -, -⟩ := step_eq_ok hs'
  have hs := hinv.stepped hq
  obtain ⟨l, hevolves⟩ := TimerQueue.evolves_clocked hinv hq
  rcases TimerQueue.calls_cases (q := s.queue) x with hnil | ⟨b, its, c, rfl, hcalls, hc⟩
  · rw [hnil, List.append_nil] at hfired
    refine ⟨htimely, ?_, hfired ▸ h.renews⟩
    intro pre f post hf hpost
    refine hs.lastCall hinv hevolves.created_le ?_ (h.last pre f post (hfired ▸ hf) hpost)
    rw [hnil]
    exact fun c hc => absurd hc List.not_mem_nil
  · rw [hcalls] at hfired
    refine ⟨htimely, ?_, ?_⟩
    · intro pre f post hf hpost
      rw [hfired] at hf
      obtain ⟨rfl, -, -⟩ | ⟨post', rfl, hold⟩ := append_cons_eq_concat hf
      · exact hc.lastCall hinv h.timely.due hs
      · refine hs.lastCall hinv hevolves.created_le ?_ (h.last pre f post' hold ?_)
        · rw [hcalls]
          exact fun d hd => hpost d (List.mem_append_right _ hd)
        · exact fun d hd => hpost d (List.mem_append_left _ hd)
    · intro pre f mid g post hg hnumber hmid
      rw [hfired, ← List.cons_append, ← List.append_assoc] at hg
      obtain ⟨rfl, -, hold⟩ | ⟨post', rfl, hold⟩ := append_cons_eq_concat hg
      · obtain ⟨htimer, hvalue⟩ := hc.renewed (h.last pre f mid hold.symm hmid) hnumber
        have hmem : f ∈ s.fired := hold ▸ List.mem_append_right _ List.mem_cons_self
        have honce := htimely.once
        rw [hfired] at honce
        obtain ⟨-, -, hcross⟩ := List.pairwise_append.mp honce
        have hrep := hcross f hmem g (List.mem_singleton_self g) hnumber.symm
        have hlast : g ∈ s'.fired := hfired ▸ List.mem_append_right _ (List.mem_singleton_self g)
        have htime := htimely.in_time g hlast
        rw [hvalue] at htime
        exact ⟨hrep.1, htimer, hvalue, htime⟩
      · rw [List.append_assoc, List.cons_append] at hold
        exact h.renews pre f mid g post' hold hnumber hmid

end TimerRun

end Dwater
