import Mathlib.Data.Fin.Basic
import Mathlib.Data.Finset.Max
import Mathlib.Data.Finset.Sort
import Mathlib.Data.Prod.Lex
import Dwater.Base.Timestamp
import Dwater.Lib.Heap

/-! # The timer queue

The queue keeps its timers twice: in `timers_` under their expirations, and in
`active_timers_` under their sequence numbers. A one-shot timerfd wakes the loop thread,
which takes the expired timers out of both sets, runs their callbacks and puts the
repeating ones back. A callback may add and cancel timers, so `HandleRead` is cut at its
callbacks and what they do are steps of their own.
-/

set_option autoImplicit false
namespace Dwater

open Fallible

abbrev TimerPtr := Fin (2 ^ 64)

instance instNeZeroUintptr : NeZero (2 ^ 64) := ⟨by decide⟩

/-- `reinterpret_cast<Timer*>(UINTPTR_MAX)`. -/
def uintptrMax : TimerPtr := ⊤

structure Timer where
  expiration : Timestamp
  interval : Seconds
  repeats : Bool
  sequence : Int64
  deriving DecidableEq, Repr

namespace Timer

/-- The constructor, with the number that `s_num_created_.IncrementAndGet()` returns. -/
def new (when : Timestamp) (interval : Seconds) (sequence : Int64) : Timer :=
  ⟨when, interval, interval.positive, sequence⟩

def restart (t : Timer) (now : Timestamp) : Timer :=
  if t.repeats then { t with expiration := now.addTime t.interval }
  else { t with expiration := .invalid }

theorem restart_expiration {t : Timer} (h : t.repeats = true) (now : Timestamp) :
    (t.restart now).expiration = now.addTime t.interval := by
  simp [restart, h]

end Timer

structure TimerId where
  timer : TimerPtr
  sequence : Int64
  deriving DecidableEq, Repr

/-- `std::pair<Timestamp, Timer*>`, ordered by the time stamp and then by the address. -/
abbrev TimerEntry := Timestamp ×ₗ TimerPtr

abbrev ActiveTimer := TimerPtr × Int64

/-- `it == end() || when < it->first`, for the first entry `it` of a range. -/
def Timestamp.precedes (when : Timestamp) (entries : Finset TimerEntry) : Bool :=
  match entries.min with
  | ⊤ => true
  | (e : TimerEntry) => when < (ofLex e).1

theorem Timestamp.precedes_iff {when : Timestamp} {entries : Finset TimerEntry} :
    when.precedes entries = true ↔ ∀ e ∈ entries, when < (ofLex e).1 := by
  unfold precedes
  cases h : entries.min with
  | top =>
    rw [Finset.min_eq_top] at h
    simp [h]
  | coe m =>
    simp only [decide_eq_true_eq]
    constructor
    · intro hm e he
      exact lt_of_lt_of_le hm (Prod.Lex.monotone_fst _ _ (Finset.min_le_of_eq he h))
    · exact fun hall => hall m (Finset.mem_of_min h)

structure Timespec where
  tvSec : Int64
  tvNsec : Int64
  deriving DecidableEq, Repr

/-- A one-shot timerfd: the deadline that has not been read yet, and when it was last set. -/
structure Timerfd where
  deadline : Option ℤ
  setAt : Timestamp
  deriving DecidableEq, Repr

namespace Timerfd

/-- `timerfd_settime` with a relative time; a zero time disarms the timer. -/
def settime (now : Timestamp) (value : Timespec) : Timerfd where
  deadline :=
    if value.tvSec = 0 ∧ value.tvNsec = 0 then none
    else some (now.micros + value.tvSec.toInt * 1000000 + value.tvNsec.toInt / 1000)
  setAt := now

/-- `ReadTimerfd`: a deadline that has passed is read, and with one to come the read fails. -/
def read (fd : Timerfd) (now : Timestamp) : Timerfd :=
  match fd.deadline with
  | some d => if d ≤ now.micros then { fd with deadline := none } else fd
  | none => fd

end Timerfd

/-- `HowMuchTimeFromNow(when)`, when `Timestamp::Now()` returns `now`. -/
def howMuchTimeFromNow (now when : Timestamp) : Timespec :=
  let diff := when.microSecondsSinceEpoch - now.microSecondsSinceEpoch
  let microseconds := if diff < 100 then 100 else diff
  ⟨microseconds / Timestamp.kmicroSecondsPerSecond,
    microseconds % Timestamp.kmicroSecondsPerSecond * 1000⟩

/--
The locals of a `HandleRead` that has called `GetExpired`, with the entries whose callbacks are
still to run.
-/
structure ExpiredBatch where
  now : Timestamp
  expired : List TimerEntry
  upcoming : List TimerEntry
  deriving DecidableEq

/--
The queue with what it works on: the Timers, the clock and the timerfd. `waiting` holds the Timers
that `AddTimer` has created and whose `AddTimerInLoop` has not run yet, and `batch` the
`HandleRead` that is running callbacks.
-/
structure TimerQueue where
  heap : Heap TimerPtr Timer
  clock : Timestamp
  timerfd : Timerfd
  timers : Finset TimerEntry
  activeTimers : Finset ActiveTimer
  callingExpiredTimers : Bool
  cancelingTimers : Finset ActiveTimer
  waiting : Finset TimerPtr
  batch : Option ExpiredBatch

namespace TimerQueue

def new (now : Timestamp) : TimerQueue where
  heap := .empty
  clock := now
  timerfd := ⟨none, now⟩
  timers := ∅
  activeTimers := ∅
  callingExpiredTimers := false
  cancelingTimers := ∅
  waiting := ∅
  batch := none

def SameSize (q : TimerQueue) : Prop := q.timers.card = q.activeTimers.card

instance (q : TimerQueue) : Decidable q.SameSize := inferInstanceAs (Decidable (_ = _))

def deref (q : TimerQueue) (timer : TimerPtr) (line : ℕ) : Except Fault Timer :=
  match q.heap.get timer with
  | some t => .ok t
  | none => .error (.useAfterFree .timer_queue_cc line)

def delete (q : TimerQueue) (timer : TimerPtr) (line : ℕ) : Except Fault TimerQueue := do
  let _ ← q.deref timer line
  return { q with heap := q.heap.delete timer }

def resetTimerfd (q : TimerQueue) (expiration : Timestamp) : TimerQueue :=
  { q with timerfd := .settime q.clock (howMuchTimeFromNow q.clock expiration) }

def insert (q : TimerQueue) (timer : TimerPtr) : Except Fault (TimerQueue × Bool) := do
  check q.SameSize (.assertion .timer_queue_cc 196)
  let t ← q.deref timer 198
  let changed := t.expiration.precedes q.timers
  let entry : TimerEntry := toLex (t.expiration, timer)
  check (entry ∉ q.timers) (.assertion .timer_queue_cc 205)
  check ((timer, t.sequence) ∉ q.activeTimers) (.assertion .timer_queue_cc 209)
  let q := { q with
    timers := Insert.insert entry q.timers
    activeTimers := Insert.insert (timer, t.sequence) q.activeTimers }
  check q.SameSize (.assertion .timer_queue_cc 211)
  return (q, changed)

def addTimerInLoop (q : TimerQueue) (timer : TimerPtr) : Except Fault TimerQueue := do
  let (q, changed) ← q.insert timer
  if changed then
    let t ← q.deref timer 121
    return q.resetTimerfd t.expiration
  else return q

/-- The branch of `CancelInLoop` for a timer found in `active_timers_`. -/
def eraseActive (q : TimerQueue) (timer : ActiveTimer) : Except Fault TimerQueue := do
  let t ← q.deref timer.1 131
  let entry : TimerEntry := toLex (t.expiration, timer.1)
  check (entry ∈ q.timers) (.assertion .timer_queue_cc 132)
  let q ← { q with timers := q.timers.erase entry }.delete timer.1 134
  return { q with activeTimers := q.activeTimers.erase timer }

def cancelInLoop (q : TimerQueue) (timerId : TimerId) : Except Fault TimerQueue := do
  check q.SameSize (.assertion .timer_queue_cc 127)
  let timer : ActiveTimer := (timerId.timer, timerId.sequence)
  let q ←
    if timer ∈ q.activeTimers then q.eraseActive timer
    else if q.callingExpiredTimers then
      pure { q with cancelingTimers := Insert.insert timer q.cancelingTimers }
    else pure q
  check q.SameSize (.assertion .timer_queue_cc 139)
  return q

def eraseExpired (q : TimerQueue) (it : TimerEntry) : Except Fault TimerQueue := do
  let t ← q.deref (ofLex it).2 167
  let timer : ActiveTimer := ((ofLex it).2, t.sequence)
  check (timer ∈ q.activeTimers) (.assertion .timer_queue_cc 169)
  return { q with activeTimers := q.activeTimers.erase timer }

def getExpired (q : TimerQueue) (now : Timestamp) :
    Except Fault (TimerQueue × List TimerEntry) := do
  check q.SameSize (.assertion .timer_queue_cc 158)
  let sentry : TimerEntry := toLex (now, uintptrMax)
  let rest := q.timers.filter (sentry ≤ ·)
  check (now.precedes rest) (.assertion .timer_queue_cc 162)
  let expired := (q.timers.filter (· < sentry)).sort
  let q ← run eraseExpired { q with timers := rest } expired
  check q.SameSize (.assertion .timer_queue_cc 171)
  return (q, expired)

def sentry (now : Timestamp) : TimerEntry := toLex (now, uintptrMax)

def dueEntries (q : TimerQueue) (now : Timestamp) : List TimerEntry :=
  (q.timers.filter (· < sentry now)).sort

def resetOne (now : Timestamp) (q : TimerQueue) (it : TimerEntry) : Except Fault TimerQueue := do
  let t ← q.deref (ofLex it).2 178
  if t.repeats ∧ ((ofLex it).2, t.sequence) ∉ q.cancelingTimers then
    let (q, _) ← { q with heap := q.heap.set (ofLex it).2 (t.restart now) }.insert (ofLex it).2
    return q
  else q.delete (ofLex it).2 183

def reset (q : TimerQueue) (expired : List TimerEntry) (now : Timestamp) :
    Except Fault TimerQueue := do
  let q ← run (resetOne now) q expired
  let nextExpired ←
    match q.timers.min with
    | ⊤ => pure Timestamp.invalid
    | (e : TimerEntry) => Timer.expiration <$> q.deref (ofLex e).2 187
  if nextExpired.valid then return q.resetTimerfd nextExpired else return q

/-- `HandleRead` up to its first callback; `ReadTimerfd` runs at `readAt`. -/
def handleRead (q : TimerQueue) (readAt : Timestamp) : Except Fault TimerQueue := do
  let now := q.clock
  let (q, expired) ← { q with clock := readAt, timerfd := q.timerfd.read readAt }.getExpired now
  return { q with
    callingExpiredTimers := true
    cancelingTimers := ∅
    batch := some ⟨now, expired, expired⟩ }

/-- The call of one callback of `HandleRead`, through the pointer of its entry. -/
def runCallback (q : TimerQueue) (b : ExpiredBatch) (it : TimerEntry) (its : List TimerEntry) :
    Except Fault TimerQueue := do
  let _ ← q.deref (ofLex it).2 151
  return { q with batch := some { b with upcoming := its } }

/-- `HandleRead` from the return of its last callback on. -/
def finishRead (q : TimerQueue) (b : ExpiredBatch) : Except Fault TimerQueue := do
  let q ← { q with callingExpiredTimers := false }.reset b.expired b.now
  return { q with batch := none }

end TimerQueue

/--
A step of the system: the clock moves, `AddTimer` of some thread creates a Timer at a free address,
the loop thread runs `AddTimerInLoop` or `CancelInLoop`, from a callback or not, or enters,
continues or finishes a `HandleRead`.
-/
inductive TimerLabel
  | tick (now : Timestamp)
  | newTimer (timer : TimerPtr) (when : Timestamp) (interval : Seconds)
  | addTimerInLoop (timer : TimerPtr)
  | cancelInLoop (timerId : TimerId)
  | handleRead (readAt : Timestamp)
  | runCallback
  | finishRead
  deriving DecidableEq, Repr

namespace TimerQueue

def step (q : TimerQueue) : TimerLabel → Except Fault TimerQueue
  | .tick now => if q.clock ≤ now then return { q with clock := now } else return q
  | .newTimer timer when interval =>
    if q.heap.get timer = none ∧ timer ≠ uintptrMax then
      return { q with
        heap := q.heap.new timer (.new when interval (.ofNat (q.heap.created + 1)))
        waiting := Insert.insert timer q.waiting }
    else return q
  | .addTimerInLoop timer =>
    if timer ∈ q.waiting then { q with waiting := q.waiting.erase timer }.addTimerInLoop timer
    else return q
  | .cancelInLoop timerId => q.cancelInLoop timerId
  | .handleRead readAt =>
    if q.batch = none ∧ q.clock ≤ readAt then q.handleRead readAt else return q
  | .runCallback =>
    match q.batch with
    | some b =>
      match b.upcoming with
      | it :: its => q.runCallback b it its
      | [] => return q
    | none => return q
  | .finishRead =>
    match q.batch with
    | some b => if b.upcoming = [] then q.finishRead b else return q
    | none => return q

end TimerQueue

end Dwater
