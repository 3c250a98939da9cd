import Dwater.Net.Timers.Places

/-! # The deadline of the timerfd

The timerfd is set when an insertion changes the earliest expiration and at the end of
`HandleRead` when the next expiration is valid. As long as the subtraction of the clock
from an expiration and the addition of an interval to the clock do not overflow, it is
armed for the earliest timer whenever no `HandleRead` is running.
-/

set_option autoImplicit false
namespace Dwater

open Fallible

/-- The deadline is no later than a time and 100 microseconds after it was set. -/
def Timerfd.Covers (fd : Timerfd) (when : Timestamp) : Prop :=
  ∃ d, fd.deadline = some d ∧ d ≤ max when.micros (fd.setAt.micros + 100)

theorem Timerfd.Covers.mono {fd : Timerfd} {s t : Timestamp} (h : fd.Covers s) (hst : s ≤ t) :
    fd.Covers t := by
  obtain ⟨d, hd, hle⟩ := h
  exact ⟨d, hd, le_trans hle (max_le_max_right _ hst)⟩

theorem toInt_ite_lt (n m : Int64) : (if n < m then m else n).toInt = max m.toInt n.toInt := by
  split
  · next h =>
    rw [Int64.lt_iff_toInt_lt] at h
    omega
  · next h =>
    rw [Int64.lt_iff_toInt_lt] at h
    omega

theorem toInt_seconds {m : Int64} (h : 0 < m.toInt) :
    (m / Timestamp.kmicroSecondsPerSecond).toInt = m.toInt / 1000000 := by
  have hlt := m.toInt_lt
  rw [Int64.toInt_div]
  change (m.toInt.tdiv 1000000).bmod (2 ^ 64) = _
  rw [Int.tdiv_eq_ediv_of_nonneg (by omega)]
  exact Int.bmod_eq_of_le (by omega) (by omega)

theorem toInt_nanoseconds {m : Int64} (h : 0 < m.toInt) :
    (m % Timestamp.kmicroSecondsPerSecond * 1000).toInt = m.toInt % 1000000 * 1000 := by
  rw [Int64.toInt_mul, Int64.toInt_mod]
  change (m.toInt.tmod 1000000 * 1000).bmod (2 ^ 64) = _
  rw [Int.tmod_eq_emod_of_nonneg (by omega)]
  exact Int.bmod_eq_of_le (by omega) (by omega)

/-- A positive number of microseconds, given as a `timespec`, is the time until the deadline. -/
theorem settime_microseconds (now : Timestamp) {m : Int64} (h : 0 < m.toInt) :
    (Timerfd.settime now ⟨m / Timestamp.kmicroSecondsPerSecond,
      m % Timestamp.kmicroSecondsPerSecond * 1000⟩).deadline = some (now.micros + m.toInt) := by
  have hsec := toInt_seconds h
  have hnsec := toInt_nanoseconds h
  have hne : ¬ (m / Timestamp.kmicroSecondsPerSecond = 0 ∧
      m % Timestamp.kmicroSecondsPerSecond * 1000 = 0) := by
    rintro ⟨hs, hn⟩
    rw [hs] at hsec
    rw [hn] at hnsec
    have hzero : (0 : Int64).toInt = 0 := rfl
    omega
  simp only [Timerfd.settime, if_neg hne, hsec, hnsec, Option.some.injEq]
  omega

/-- Without overflow the timerfd is set for the expiration, or 100 microseconds from now. -/
theorem settime_howMuchTimeFromNow {now when : Timestamp} (hnow : 0 < now.micros)
    (h : -2 ^ 63 ≤ when.micros - now.micros) :
    (Timerfd.settime now (howMuchTimeFromNow now when)).deadline =
      some (max when.micros (now.micros + 100)) := by
  have hdiff : (when.microSecondsSinceEpoch - now.microSecondsSinceEpoch).toInt =
      when.micros - now.micros := by
    have := when.microSecondsSinceEpoch.toInt_lt
    rw [Int64.toInt_sub]
    simp only [Timestamp.micros] at *
    exact Int.bmod_eq_of_le (by omega) (by omega)
  have hm := toInt_ite_lt (when.microSecondsSinceEpoch - now.microSecondsSinceEpoch) 100
  have h100 : (100 : Int64).toInt = 100 := rfl
  rw [hdiff, h100] at hm
  rw [howMuchTimeFromNow, settime_microseconds now (by omega), hm]
  congr 1
  omega

theorem covers_settime {now when t : Timestamp} (hnow : 0 < now.micros)
    (h : -2 ^ 63 ≤ when.micros - now.micros) (ht : when ≤ t) :
    (Timerfd.settime now (howMuchTimeFromNow now when)).Covers t :=
  ⟨_, settime_howMuchTimeFromNow hnow h, max_le_max_right _ ht⟩

namespace TimerQueue

variable {q q' : TimerQueue} {scheduled : Finset TimerPtr} {p : TimerPtr} {t : Timer}

/-- After every step outside `HandleRead` the timerfd covers the earliest timer. -/
def Watched (q : TimerQueue) : Prop :=
  q.batch = none → ∀ e : TimerEntry, q.timers.min = ↑e →
    ∃ d, q.timerfd.deadline = some d ∧
      d ≤ max (ofLex e).1.micros (q.timerfd.setAt.micros + 100)

/--
`AddTimerInLoop` does not overflow in `when - Now()` when it sets the timerfd, and `Reset` does not
overflow in `now + interval` when it puts a timer back.
-/
def NoOverflow (q : TimerQueue) : TimerLabel → Prop
  | .addTimerInLoop p => ∀ t, q.heap.get p = some t → t.expiration.precedes q.timers = true →
      -2 ^ 63 ≤ t.expiration.micros - q.clock.micros
  | .finishRead => ∀ b, q.batch = some b → ∀ p ∈ pointers b.expired, ∀ t, q.Rearmed p t →
      0 < b.now.micros + t.interval.microSeconds.toInt ∧
        b.now.micros + t.interval.microSeconds.toInt < 2 ^ 63
  | _ => True

/--
The timerfd covers every timer. While a `HandleRead` runs it need only cover those that were due
when it started, which its callbacks have added; for the others it is set at the end.
-/
structure Armed (q : TimerQueue) : Prop where
  clock_pos : 0 < q.clock.micros
  now_pos : ∀ b, q.batch = some b → 0 < b.now.micros
  covers : ∀ e ∈ q.timers, (∀ b, q.batch = some b → (ofLex e).1 ≤ b.now) →
    q.timerfd.Covers (ofLex e).1

theorem new_armed {now : Timestamp} (h : 0 < now.micros) : (new now).Armed := by
  refine ⟨h, ?_, fun e he => absurd he (Finset.notMem_empty e)⟩
  intro b hb
  cases hb

theorem Armed.watched (h : q.Armed) : q.Watched := by
  intro hb e he
  apply h.covers e (Finset.mem_of_min he)
  intro b hb'
  rw [hb] at hb'
  cases hb'

theorem Armed.of_subset (h : q.Armed) (hclock : q.clock ≤ q'.clock) (hfd : q'.timerfd = q.timerfd)
    (hb : q'.batch = q.batch) (hsub : q'.timers ⊆ q.timers) : q'.Armed := by
  constructor
  · exact lt_of_lt_of_le h.clock_pos hclock
  · rw [hb]
    exact h.now_pos
  · intro e he hdue
    rw [hb] at hdue
    rw [hfd]
    exact h.covers e (hsub he) hdue

theorem Armed.add (h : q.Armed)
    (hno : t.expiration.precedes q.timers = true →
      -2 ^ 63 ≤ t.expiration.micros - q.clock.micros) :
    Armed (if t.expiration.precedes q.timers then
        ({ q with waiting := q.waiting.erase p }.put p t).resetTimerfd t.expiration
      else { q with waiting := q.waiting.erase p }.put p t) := by
  split
  · next hpre =>
    refine ⟨h.clock_pos, h.now_pos, fun e he _ => ?_⟩
    apply covers_settime h.clock_pos (hno hpre)
    rcases Finset.mem_insert.mp he with rfl | he
    · exact le_rfl
    · exact le_of_lt (Timestamp.precedes_iff.mp hpre e he)
  · next hpre =>
    refine ⟨h.clock_pos, h.now_pos, fun e he hdue => ?_⟩
    rcases Finset.mem_insert.mp he with rfl | he
    · simp only [Timestamp.precedes_iff, not_forall, not_lt] at hpre
      obtain ⟨f, hf, hle⟩ := hpre
      have hcov := h.covers f hf fun b hb => le_trans hle (hdue b hb)
      exact hcov.mono hle
    · exact h.covers e he hdue

theorem Armed.entered (h : q.Armed) (hinv : q.Inv scheduled) {readAt : Timestamp}
    (hclock : q.clock ≤ readAt) : (q.entered readAt scheduled).Armed := by
  constructor
  · exact lt_of_lt_of_le h.clock_pos hclock
  · intro b hb
    cases hb
    exact h.clock_pos
  · intro e he hdue
    obtain ⟨he, hle⟩ := Finset.mem_filter.mp he
    have hmax := hinv.owned.keyed.ne_max hinv.owned.max_notMem he
    have hlt := (lt_sentry hmax).mpr (hdue _ rfl)
    exact absurd hle (not_le_of_gt hlt)

theorem Armed.runCallback (h : q.Armed) {b : ExpiredBatch} (hb : q.batch = some b)
    (its : List TimerEntry) : Armed { q with batch := some { b with upcoming := its } } := by
  constructor
  · exact h.clock_pos
  · intro b' hb'
    cases hb'
    exact h.now_pos b hb
  · intro e he hdue
    apply h.covers e he
    intro b' hb'
    rw [hb] at hb'
    cases hb'
    exact hdue { b with upcoming := its } rfl

/-- `Reset` sets the timerfd for a valid expiration; any other was added during the callbacks. -/
theorem Armed.reset (h : q.Armed) {b : ExpiredBatch} (hb : q.batch = some b) {q₁ : TimerQueue}
    (hs : Settled b.now { q with callingExpiredTimers := false } (pointers b.expired) q₁)
    (hno : ∀ p ∈ pointers b.expired, ∀ t, q.Rearmed p t →
      0 < b.now.micros + t.interval.microSeconds.toInt ∧
        b.now.micros + t.interval.microSeconds.toInt < 2 ^ 63)
    (hfd : (∃ e : TimerEntry, q₁.timers.min = ↑e ∧ (ofLex e).1.valid = true ∧
        q' = q₁.resetTimerfd (ofLex e).1) ∨
      ((∀ e : TimerEntry, q₁.timers.min = ↑e → (ofLex e).1.valid = false) ∧ q' = q₁)) :
    Armed { q' with batch := none } := by
  have hclock : 0 < q₁.clock.micros := hs.clock_eq ▸ h.clock_pos
  have hfst : ∀ {e f : TimerEntry}, q₁.timers.min = ↑e → f ∈ q₁.timers →
      (ofLex e).1 ≤ (ofLex f).1 :=
    fun he hf => Prod.Lex.monotone_fst _ _ (Finset.min_le_of_eq hf he)
  rcases hfd with ⟨e, hmin, hv, rfl⟩ | ⟨hv, rfl⟩
  · refine ⟨hclock, ?_, fun f hf _ => ?_⟩
    · intro b' hb'
      cases hb'
    · rw [Timestamp.valid_iff] at hv
      have hlt := q₁.clock.microSecondsSinceEpoch.toInt_lt
      apply covers_settime hclock _ (hfst hmin hf)
      simp only [Timestamp.micros] at *
      omega
  · refine ⟨hclock, ?_, fun f hf _ => ?_⟩
    · intro b' hb'
      cases hb'
    · obtain ⟨e, hmin⟩ := Finset.min_of_mem hf
      have hle : (ofLex e).1.micros ≤ 0 := by
        have := hv e hmin
        rw [Bool.eq_false_iff, ne_eq, Timestamp.valid_iff] at this
        omega
      rcases (hs.mem_timers e).mp (Finset.mem_of_min hmin) with he | ⟨p, hp, t, hr, rfl⟩
      · have hcov := h.covers e he fun b' hb' => by
          rw [hb] at hb'
          cases hb'
          have := h.now_pos b hb
          rw [Timestamp.le_iff]
          omega
        change q'.timerfd.Covers _
        rw [hs.timerfd_eq]
        exact hcov.mono (hfst hmin hf)
      · obtain ⟨hpos, hlt⟩ := hno p hp t hr
        have := Timestamp.micros_addTime hpos hlt
        change (b.now.addTime t.interval).micros ≤ 0 at hle
        omega

theorem step_armed {l : TimerLabel} (hinv : q.Inv scheduled) (h : q.Armed) (hl : q.NoOverflow l)
    (hq : q.step l = .ok q') : q'.Armed := by
  cases l with
  | tick now =>
    simp only [step] at hq
    split at hq
    · next hle =>
      cases hq
      exact h.of_subset hle rfl rfl (Finset.Subset.refl _)
    · cases hq
      exact h
  | newTimer p when interval =>
    simp only [step] at hq
    split at hq
    · cases hq
      exact h.of_subset le_rfl rfl rfl (Finset.Subset.refl _)
    · cases hq
      exact h
  | addTimerInLoop p =>
    simp only [step] at hq
    split at hq
    · next hp =>
      obtain ⟨t, ht⟩ := hinv.owned.get_waiting hp
      rw [hinv.owned.addTimerInLoop_eq hp ht] at hq
      cases hq
      exact h.add (hl t ht)
    · cases hq
      exact h
  | cancelInLoop timerId =>
    simp only [step] at hq
    obtain ⟨p, t, -, -, -, heq⟩ | ⟨-, -, heq⟩ | ⟨-, -, heq⟩ :=
      hinv.owned.keyed.cancelInLoop_cases hinv.owned.live timerId
    · rw [heq] at hq
      cases hq
      exact h.of_subset le_rfl rfl rfl (Finset.erase_subset _ _)
    · rw [heq] at hq
      cases hq
      exact h.of_subset le_rfl rfl rfl (Finset.Subset.refl _)
    · rw [heq] at hq
      cases hq
      exact h
  | handleRead readAt =>
    simp only [step] at hq
    split at hq
    · next hb =>
      rw [hinv.owned.handleRead_eq] at hq
      cases hq
      exact h.entered hinv hb.2
    · cases hq
      exact h
  | runCallback =>
    obtain rfl | ⟨b, its, hb, rfl⟩ := hinv.step_runCallback hq
    · exact h
    · exact h.runCallback hb its
  | finishRead =>
    simp only [step] at hq
    split at hq
    · next b hb =>
      split at hq
      · obtain ⟨q₁, q₂, hs, -, hfd, rfl⟩ := (hinv.finishRead_settled hb).of_eq hq
        exact h.reset hb hs (hl b hb) hfd
      · cases hq
        exact h
    · cases hq
      exact h

/--
In a run that does not overflow, the timerfd is armed or has expired unread whenever a timer is
scheduled and no `HandleRead` is running, and early enough for the first of them.
-/
theorem timerfd_covers_timers {now : Timestamp} (hnow : now.valid = true)
    (labels : List TimerLabel) (h : Along step NoOverflow (new now) labels) :
    Yields (run step (new now) labels) Watched := by
  have hstep : ∀ (q : TimerQueue) (l : TimerLabel), ((∃ scheduled, q.Inv scheduled) ∧ q.Armed) →
      q.NoOverflow l → Yields (q.step l) fun q' => (∃ scheduled, q'.Inv scheduled) ∧ q'.Armed := by
    rintro q l ⟨⟨scheduled, hinv⟩, harm⟩ hl
    obtain ⟨q', hq', hinv'⟩ := step_inv q l ⟨scheduled, hinv⟩
    exact ⟨q', hq', hinv', step_armed hinv harm hl hq'⟩
  have hnew : (∃ scheduled, (new now).Inv scheduled) ∧ (new now).Armed :=
    ⟨⟨∅, new_inv now⟩, new_armed (Timestamp.valid_iff.mp hnow)⟩
  exact (run_invariant hstep hnew h).mono fun q hq => hq.2.watched

/-- A clock at 200 and one repeating Timer, added when the clock was at 1 with a past expiration. -/
def oneTimer : TimerQueue :=
  { new ⟨1⟩ with
    heap := (new ⟨1⟩).heap.new 1 (.new ⟨-5⟩ ⟨true, 10⟩ 1)
    clock := ⟨200⟩
    timerfd := .settime ⟨1⟩ (howMuchTimeFromNow ⟨1⟩ ⟨-5⟩)
    timers := {toLex (⟨-5⟩, 1)}
    activeTimers := {(1, 1)} }

theorem oneTimer_inv : oneTimer.Inv {1} := by
  have hnew := (new_inv ⟨1⟩).owned.newTimer (p := 1) rfl (by decide) (.new ⟨-5⟩ ⟨true, 10⟩ 1)
  have hadd := hnew.add (p := 1) (t := .new ⟨-5⟩ ⟨true, 10⟩ 1) (by decide) rfl
  refine ⟨hadd.of_eq rfl rfl rfl rfl, fun b hb => ?_⟩
  cases hb

theorem oneTimer_get {p : TimerPtr} {t : Timer} (h : oneTimer.heap.get p = some t) :
    t = .new ⟨-5⟩ ⟨true, 10⟩ 1 := by
  have hfree : (new ⟨1⟩).heap.get 1 = none := rfl
  rw [oneTimer, Heap.get_new hfree] at h
  by_cases hp : p = 1
  · subst hp
    cases h
    rfl
  · rw [Function.update_of_ne hp] at h
    cases h

theorem timerfd_covers_timers_repeating :
    Yields (run step (new ⟨1⟩) [.newTimer 1 ⟨-5⟩ ⟨true, 10⟩, .addTimerInLoop 1, .tick ⟨200⟩,
      .handleRead ⟨201⟩, .runCallback, .finishRead]) Watched := by
  refine timerfd_covers_timers rfl _ ?_
  refine ⟨trivial, fun q hq => ?_⟩
  cases hq
  refine ⟨?_, fun q hq => ?_⟩
  · intro t ht _
    cases ht
    decide
  cases hq
  refine ⟨trivial, fun q hq => ?_⟩
  have hq' : q = oneTimer := by
    cases hq
    rfl
  subst hq'
  refine ⟨trivial, fun q hq => ?_⟩
  have hq' : q = oneTimer.entered ⟨201⟩ {1} := by
    have heq : oneTimer.step (.handleRead ⟨201⟩) = .ok (oneTimer.entered ⟨201⟩ {1}) :=
      oneTimer_inv.owned.handleRead_eq _
    rw [heq] at hq
    cases hq
    rfl
  subst hq'
  refine ⟨trivial, fun q hq => ⟨?_, fun _ _ => trivial⟩⟩
  have hinv : ∃ scheduled, (oneTimer.entered ⟨201⟩ {1}).Inv scheduled :=
    (oneTimer_inv.handleRead rfl ⟨201⟩).of_eq (oneTimer_inv.owned.handleRead_eq _)
  obtain ⟨scheduled, hinv⟩ := hinv
  intro b hb p _ t ht
  have hread : b.now = ⟨200⟩ ∧ t = .new ⟨-5⟩ ⟨true, 10⟩ 1 := by
    obtain rfl | ⟨b', its, hb', rfl⟩ := hinv.step_runCallback hq
    · cases hb
      exact ⟨rfl, oneTimer_get ht.1⟩
    · cases hb
      cases hb'
      exact ⟨rfl, oneTimer_get ht.1⟩
  rw [hread.1, hread.2]
  decide

/-- The smallest `Timestamp` overflows in `when - Now()`: the timerfd is set far too late. -/
theorem timerfd_late_for_smallest_timestamp :
    ¬ Yields (run step (new ⟨1⟩) [.newTimer 1 ⟨Int64.minValue⟩ ⟨false, 0⟩, .addTimerInLoop 1])
      Watched := by
  rintro ⟨q, hq, hw⟩
  cases hq
  obtain ⟨d, hd, hle⟩ := hw rfl (toLex (⟨Int64.minValue⟩, 1)) rfl
  cases hd
  revert hle
  decide

end TimerQueue

end Dwater
