import Dwater.Base.Sync.BoundedBlockingQueue
import Dwater.Base.Sync.MutexLock

/-! # The bounded queue, access by access

The methods of the bounded queue as the accesses that they make to the buffer, each of which is a
step of its own that the other threads may come between. The mutex makes them the undivided
steps of the other model.
-/

set_option autoImplicit false
namespace Dwater

open Fallible

variable {τ β α : Type}

/-- The buffer, with the values that have been put and taken. -/
structure QueueData (β α : Type) where
  queue : β
  stored : List α
  taken : List α

inductive QueueCondition
  | notEmpty
  | notFull
  deriving DecidableEq, Repr

inductive QueueCall (α : Type)
  | put (x : α)
  | take
  | empty
  | full
  | size
  | capacity

inductive QueueResult (α : Type)
  | stored
  | value (x : α)
  | flag (b : Bool)
  | count (n : ℕ)

namespace QueueResult

def value? : QueueResult α → Option α
  | .value x => some x
  | .stored | .flag _ | .count _ => none

@[simp] theorem value?_stored : (stored : QueueResult α).value? = none := rfl

@[simp] theorem value?_value {x : α} : (value x).value? = some x := rfl

end QueueResult

abbrev QueueCode (β α : Type) := SectionCode (QueueData β α) QueueCondition Fault (QueueResult α)

namespace QueueCode

section Methods

variable (buffer : CircularBuffer β α)

/-- `Put`, from the condition of its loop. -/
def put (x : α) : QueueCode β α :=
  .access id fun d =>
    if buffer.full d.queue then .wait .notFull
    else .access id fun d =>
      if buffer.full d.queue then .fail (.assertion .bounded_blocking_queue_h 33)
      else
        .access (fun d =>
          { d with queue := buffer.pushBack d.queue x, stored := d.stored ++ [x] })
          fun _ => .done (some (.one .notEmpty)) .stored

/-- `Take`, from the condition of its loop. -/
def take : QueueCode β α :=
  .access id fun d =>
    if buffer.empty d.queue then .wait .notEmpty
    else .access id fun d =>
      if buffer.empty d.queue then .fail (.assertion .bounded_blocking_queue_h 53)
      else .access id fun d =>
        match buffer.front d.queue with
        | none => .fail (.outOfBounds .bounded_blocking_queue_h 54)
        | some front =>
          .access (fun d =>
            { d with queue := buffer.popFront d.queue, taken := d.taken ++ [front] })
            fun _ => .done (some (.one .notFull)) (.value front)

def empty : QueueCode β α := .access id fun d => .done none (.flag (buffer.empty d.queue))

def full : QueueCode β α := .access id fun d => .done none (.flag (buffer.full d.queue))

def size : QueueCode β α := .access id fun d => .done none (.count (buffer.size d.queue))

def capacity : QueueCode β α := .access id fun d => .done none (.count (buffer.capacity d.queue))

def body : QueueCall α → QueueCode β α
  | .put x => put buffer x
  | .take => take buffer
  | .empty => empty buffer
  | .full => full buffer
  | .size => size buffer
  | .capacity => capacity buffer

end Methods

variable {buffer : CircularBuffer β α} {d : QueueData β α} {x : α}

theorem eval_put_full (h : buffer.full d.queue = true) :
    (put buffer x).eval d = .ok (d, .wait .notFull) := by
  simp [put, SectionCode.eval, h]

theorem eval_put_room (h : buffer.full d.queue = false) :
    (put buffer x).eval d =
      .ok ({ d with queue := buffer.pushBack d.queue x, stored := d.stored ++ [x] },
        .done (some (.one .notEmpty)) .stored) := by
  simp [put, SectionCode.eval, h]

theorem eval_take_nil (h : buffer.empty d.queue = true) :
    (take buffer).eval d = .ok (d, .wait .notEmpty) := by
  simp [take, SectionCode.eval, h]

theorem eval_take_cons {front : α} (h : buffer.empty d.queue = false)
    (hfront : buffer.front d.queue = some front) :
    (take buffer).eval d =
      .ok ({ d with queue := buffer.popFront d.queue, taken := d.taken ++ [front] },
        .done (some (.one .notFull)) (.value front)) := by
  simp [take, SectionCode.eval, h, hfront]

end QueueCode

/-- A `BoundedBlockingQueue`, whose methods run one access at a time. -/
abbrev LockedQueue (τ β α : Type) :=
  LockedObject τ QueueCondition (QueueData β α) Fault (QueueCall α) (QueueResult α)

/-- A `BoundedBlockingQueue`, whose methods run one section at a time. -/
abbrev QueueMonitor (τ β α : Type) :=
  AtomicMonitor τ QueueCondition (QueueData β α) (QueueCall α) (QueueResult α)

/-- A call waits for what its method waits for, and `Put` has its value. -/
def QueueCall.WaitsAs (argument : Option α) : QueueCall α → QueueCondition → Prop
  | .put x, c => c = .notFull ∧ argument = some x
  | .take, c => c = .notEmpty
  | .empty, _ | .full, _ | .size, _ | .capacity, _ => False

/-- Sections and undivided steps have led to the same queue. -/
structure Queued [DecidableEq τ] (buffer : CircularBuffer β α) (content : β → List α)
    (maxSize : ℕ) (a : QueueMonitor τ β α)
    (q : BoundedBlockingQueue τ β α) : Prop where
  data_eq : a.data = ⟨q.queue, q.stored, q.taken⟩
  notEmpty_eq : a.cond .notEmpty = q.notEmpty
  notFull_eq : a.cond .notFull = q.notFull
  placed : Placed a.cond a.call
  waits : ∀ t m c, a.call t = some (m, c) → m.WaitsAs (q.argument t) c
  results : a.results.filterMap (·.2.value?) = q.taken
  counts : ∀ t n, (t, .count n) ∈ a.results → n ≤ maxSize
  inv : q.Inv buffer content maxSize

def BoundedBlockingQueue.resumed [DecidableEq τ] (q : BoundedBlockingQueue τ β α)
    (origin : Option QueueCondition) (t : τ) : BoundedBlockingQueue τ β α :=
  match origin with
  | none => q
  | some .notEmpty => { q with notEmpty := q.notEmpty.resume t }
  | some .notFull => { q with notFull := q.notFull.resume t }

section Simulation

variable [DecidableEq τ] {buffer : CircularBuffer β α} {content : β → List α} {maxSize : ℕ}
  {a a' : QueueMonitor τ β α} {q q' : BoundedBlockingQueue τ β α} {t : τ} {x : α}
  {m : QueueCall α} {origin : Option QueueCondition} {woken : Multiset τ}

theorem queued_new (hbuffer : buffer.Documented content) :
    Queued buffer content maxSize
      ⟨⟨buffer.new maxSize, [], []⟩, fun _ => .new, fun _ => none, []⟩
      (.new buffer maxSize : BoundedBlockingQueue τ β α) where
  data_eq := rfl
  notEmpty_eq := rfl
  notFull_eq := rfl
  placed := placed_new
  waits := fun _ _ _ h => nomatch h
  results := rfl
  counts := fun _ _ h => nomatch h
  inv := BoundedBlockingQueue.new_inv hbuffer

theorem Queued.idle (h : Queued buffer content maxSize a q) (hcall : a.call t = none) :
    q.Idle t := by
  have hempty := h.placed.notMem hcall .notEmpty
  have hfull := h.placed.notMem hcall .notFull
  rw [h.notEmpty_eq] at hempty
  rw [h.notFull_eq] at hfull
  exact ⟨hempty, hfull⟩

theorem Queued.resumed_notEmpty (h : Queued buffer content maxSize a q) :
    resumed a.cond origin t .notEmpty = (q.resumed origin t).notEmpty := by
  rcases origin with - | c
  · exact h.notEmpty_eq
  · cases c <;> simp [resumed, BoundedBlockingQueue.resumed, h.notEmpty_eq]

theorem Queued.resumed_notFull (h : Queued buffer content maxSize a q) :
    resumed a.cond origin t .notFull = (q.resumed origin t).notFull := by
  rcases origin with - | c
  · exact h.notFull_eq
  · cases c <;> simp [resumed, BoundedBlockingQueue.resumed, h.notFull_eq]

namespace BoundedBlockingQueue

@[simp] theorem resumed_queue : (q.resumed origin t).queue = q.queue := by
  rcases origin with - | (- | -) <;> rfl

@[simp] theorem resumed_stored : (q.resumed origin t).stored = q.stored := by
  rcases origin with - | (- | -) <;> rfl

@[simp] theorem resumed_taken : (q.resumed origin t).taken = q.taken := by
  rcases origin with - | (- | -) <;> rfl

@[simp] theorem resumed_argument : (q.resumed origin t).argument = q.argument := by
  rcases origin with - | (- | -) <;> rfl

end BoundedBlockingQueue

theorem Queued.exists_put (h : Queued buffer content maxSize a q)
    (hcall : a.call t = origin.map (.put x, ·))
    (hres : ∀ c, origin = some c → (a.cond c).Resumable t)
    (hwakes : (q.resumed origin t).notEmpty.Wakes woken) :
    ∃ label, q.step buffer label = (q.resumed origin t).put buffer t x woken := by
  cases origin with
  | none => exact ⟨.put t x woken, if_pos ⟨h.idle hcall, hwakes⟩⟩
  | some c =>
    obtain ⟨rfl, hargument⟩ := h.waits t (.put x) c hcall
    have hresumable := hres _ rfl
    rw [h.notFull_eq] at hresumable
    refine ⟨.resumePut t woken, ?_⟩
    simp only [BoundedBlockingQueue.step, hargument]
    exact if_pos ⟨hresumable, hwakes⟩

theorem Queued.exists_take (h : Queued buffer content maxSize a q)
    (hcall : a.call t = origin.map (.take, ·))
    (hres : ∀ c, origin = some c → (a.cond c).Resumable t)
    (hwakes : (q.resumed origin t).notFull.Wakes woken) :
    ∃ label, q.step buffer label = (q.resumed origin t).take buffer t woken := by
  cases origin with
  | none => exact ⟨.take t woken, if_pos ⟨h.idle hcall, hwakes⟩⟩
  | some c =>
    obtain rfl := h.waits t .take c hcall
    have hresumable := hres _ rfl
    rw [h.notEmpty_eq] at hresumable
    exact ⟨.resumeTake t woken, if_pos ⟨hresumable, hwakes⟩⟩

theorem Queued.waits_of_wait (h : Queued buffer content maxSize a q)
    {c : QueueCondition} {argument : τ → Option α}
    (hm : m.WaitsAs (argument t) c) (hframe : ∀ u, u ≠ t → argument u = q.argument u) :
    ∀ u m' c', Function.update a.call t (some (m, c)) u = some (m', c') →
      m'.WaitsAs (argument u) c' := by
  intro u m' c' hu
  by_cases hut : u = t
  · subst hut
    rw [Function.update_self] at hu
    cases hu
    exact hm
  · rw [Function.update_of_ne hut] at hu
    rw [hframe u hut]
    exact h.waits u m' c' hu

theorem Queued.waits_of_done (h : Queued buffer content maxSize a q) :
    ∀ u m' c', Function.update a.call t none u = some (m', c') →
      m'.WaitsAs (q.argument u) c' := by
  intro u m' c' hu
  by_cases hut : u = t
  · subst hut
    rw [Function.update_self] at hu
    cases hu
  · rw [Function.update_of_ne hut] at hu
    exact h.waits u m' c' hu

theorem Queued.put (hbuffer : buffer.Documented content)
    (h : Queued buffer content maxSize a q) (hcall : a.call t = origin.map (.put x, ·))
    (hres : ∀ c, origin = some c → (a.cond c).Resumable t)
    (hs : a.runSection (QueueCode.body buffer) t (.put x) origin woken = .ok a') :
    ∃ label, Yields (q.step buffer label) (Queued buffer content maxSize a') := by
  have hplaced := AtomicMonitor.runSection_placed h.placed hcall hres hs
  obtain ⟨label, hlabel⟩ := h.exists_put hcall hres (wakes_choice _ woken)
  obtain ⟨q', hq', hinv⟩ := h.inv.step_inv hbuffer label
  refine ⟨label, q', hq', ?_⟩
  rw [hlabel, BoundedBlockingQueue.put] at hq'
  simp only [BoundedBlockingQueue.resumed_queue] at hq'
  simp only [AtomicMonitor.runSection, QueueCode.body] at hs
  by_cases hfull : buffer.full q.queue = true
  · rw [QueueCode.eval_put_full (by rw [h.data_eq]; exact hfull)] at hs
    rw [if_pos hfull] at hq'
    cases hs
    cases hq'
    exact {
      data_eq := by simpa using h.data_eq
      notEmpty_eq := by simpa using h.resumed_notEmpty
      notFull_eq := by simp [h.resumed_notFull]
      placed := hplaced
      waits := by
        refine h.waits_of_wait ⟨rfl, Function.update_self ..⟩ fun u hu => ?_
        simp [hu]
      results := by simpa using h.results
      counts := h.counts
      inv := hinv }
  · have hroom := Bool.eq_false_of_not_eq_true hfull
    rw [QueueCode.eval_put_room (by rw [h.data_eq]; exact hroom)] at hs
    rw [if_neg hfull, check_bind_of_true hroom] at hq'
    cases hs
    cases hq'
    exact {
      data_eq := by simp [h.data_eq]
      notEmpty_eq := by simp [signalled, h.resumed_notEmpty]
      notFull_eq := by simp [signalled, h.resumed_notFull]
      placed := hplaced
      waits := by simpa using h.waits_of_done
      results := by simp [List.filterMap_append, h.results]
      counts := by simpa using h.counts
      inv := hinv }

theorem Queued.take (hbuffer : buffer.Documented content)
    (h : Queued buffer content maxSize a q) (hcall : a.call t = origin.map (.take, ·))
    (hres : ∀ c, origin = some c → (a.cond c).Resumable t)
    (hs : a.runSection (QueueCode.body buffer) t .take origin woken = .ok a') :
    ∃ label, Yields (q.step buffer label) (Queued buffer content maxSize a') := by
  have hplaced := AtomicMonitor.runSection_placed h.placed hcall hres hs
  obtain ⟨label, hlabel⟩ := h.exists_take hcall hres (wakes_choice _ woken)
  obtain ⟨q', hq', hinv⟩ := h.inv.step_inv hbuffer label
  refine ⟨label, q', hq', ?_⟩
  rw [hlabel, BoundedBlockingQueue.take] at hq'
  simp only [BoundedBlockingQueue.resumed_queue] at hq'
  simp only [AtomicMonitor.runSection, QueueCode.body] at hs
  by_cases hempty : buffer.empty q.queue = true
  · rw [QueueCode.eval_take_nil (by rw [h.data_eq]; exact hempty)] at hs
    rw [if_pos hempty] at hq'
    cases hs
    cases hq'
    exact {
      data_eq := by simp [h.data_eq]
      notEmpty_eq := by simp [h.resumed_notEmpty]
      notFull_eq := by simpa using h.resumed_notFull
      placed := hplaced
      waits := by
        refine h.waits_of_wait rfl fun u _ => ?_
        simp
      results := by simpa using h.results
      counts := h.counts
      inv := hinv }
  · have hsome := Bool.eq_false_of_not_eq_true hempty
    obtain ⟨front, rest, hcons⟩ := List.exists_cons_of_ne_nil
      fun hnil => hempty ((hbuffer.empty_iff q.queue).mpr hnil)
    have hfront := hbuffer.front_eq q.queue front rest hcons
    rw [QueueCode.eval_take_cons (by rw [h.data_eq]; exact hsome)
      (by rw [h.data_eq]; exact hfront)] at hs
    rw [if_neg hempty, check_bind_of_true hsome, hfront] at hq'
    cases hs
    cases hq'
    exact {
      data_eq := by simp [h.data_eq]
      notEmpty_eq := by simp [signalled, h.resumed_notEmpty]
      notFull_eq := by simp [signalled, h.resumed_notFull]
      placed := hplaced
      waits := by simpa using h.waits_of_done
      results := by simp [List.filterMap_append, h.results]
      counts := by simpa using h.counts
      inv := hinv }

theorem Queued.read (h : Queued buffer content maxSize a q) (hcall : a.call t = origin.map (m, ·))
    (hm : ∀ argument c, ¬ m.WaitsAs argument c) {r : QueueResult α}
    (heval : (QueueCode.body buffer m).eval a.data = .ok (a.data, .done none r))
    (hvalue : r.value? = none) (hcount : ∀ n, r = .count n → n ≤ maxSize)
    (hs : a.runSection (QueueCode.body buffer) t m origin woken = .ok a') :
    Queued buffer content maxSize a' q := by
  have horigin : origin = none := by
    cases origin with
    | none => rfl
    | some c => exact absurd (h.waits t m c hcall) (hm _ c)
  subst horigin
  simp only [AtomicMonitor.runSection] at hs
  rw [heval] at hs
  cases hs
  have hframe : Function.update a.call t none = a.call := by
    have hnone : a.call t = none := hcall
    rw [← hnone, Function.update_eq_self]
  exact {
    data_eq := h.data_eq
    notEmpty_eq := h.notEmpty_eq
    notFull_eq := h.notFull_eq
    placed := by
      simp only [hframe]
      exact h.placed
    waits := h.waits_of_done
    results := by simp [List.filterMap_append, hvalue, h.results]
    counts := by
      intro u n hmem
      rcases List.mem_append.mp hmem with hmem | hmem
      · exact h.counts u n hmem
      · cases List.mem_singleton.mp hmem
        exact hcount n rfl
    inv := h.inv }

theorem Queued.runSection (hbuffer : buffer.Documented content)
    (h : Queued buffer content maxSize a q) (hcall : a.call t = origin.map (m, ·))
    (hres : ∀ c, origin = some c → (a.cond c).Resumable t)
    (hs : a.runSection (QueueCode.body buffer) t m origin woken = .ok a') :
    ∃ labels, Yields (run (BoundedBlockingQueue.step buffer) q labels)
      (Queued buffer content maxSize a') := by
  have hsize : buffer.size a.data.queue ≤ maxSize := by
    rw [h.data_eq, hbuffer.size_eq]
    exact h.inv.length_le
  have hcapacity : buffer.capacity a.data.queue = maxSize := by
    rw [h.data_eq]
    exact h.inv.capacity_eq
  cases m with
  | put x =>
    obtain ⟨label, hlabel⟩ := h.put hbuffer hcall hres hs
    exact ⟨[label], by rwa [run_singleton]⟩
  | take =>
    obtain ⟨label, hlabel⟩ := h.take hbuffer hcall hres hs
    exact ⟨[label], by rwa [run_singleton]⟩
  | empty | full =>
    refine ⟨[], yields_ok.mpr (h.read hcall (fun _ _ => id) rfl rfl (fun n hn => nomatch hn) hs)⟩
  | size =>
    refine ⟨[], yields_ok.mpr (h.read hcall (fun _ _ => id) rfl rfl (fun n hn => ?_) hs)⟩
    cases hn
    exact hsize
  | capacity =>
    refine ⟨[], yields_ok.mpr (h.read hcall (fun _ _ => id) rfl rfl (fun n hn => ?_) hs)⟩
    cases hn
    exact le_of_eq hcapacity

theorem Queued.wakeUp (hbuffer : buffer.Documented content)
    (h : Queued buffer content maxSize a q) {c : QueueCondition}
    (hmem : t ∈ (a.cond c).waiting) :
    ∃ label, Yields (q.step buffer label) (Queued buffer content maxSize
      { a with cond := Function.update a.cond c ((a.cond c).wakeUp t) }) := by
  have hplaced := h.placed.of_threads (CondVar.threads_wakeUp hmem)
  cases c with
  | notEmpty =>
    rw [h.notEmpty_eq] at hmem
    obtain ⟨q', hq', hinv⟩ := h.inv.step_inv hbuffer (.wakeTake t)
    refine ⟨.wakeTake t, q', hq', ?_⟩
    simp only [BoundedBlockingQueue.step, if_pos hmem] at hq'
    cases hq'
    exact {
      data_eq := h.data_eq
      notEmpty_eq := by simp [h.notEmpty_eq]
      notFull_eq := by simp [h.notFull_eq]
      placed := hplaced
      waits := h.waits
      results := h.results
      counts := h.counts
      inv := hinv }
  | notFull =>
    rw [h.notFull_eq] at hmem
    obtain ⟨q', hq', hinv⟩ := h.inv.step_inv hbuffer (.wakePut t)
    refine ⟨.wakePut t, q', hq', ?_⟩
    simp only [BoundedBlockingQueue.step, if_pos hmem] at hq'
    cases hq'
    exact {
      data_eq := h.data_eq
      notEmpty_eq := by simp [h.notEmpty_eq]
      notFull_eq := by simp [h.notFull_eq]
      placed := hplaced
      waits := h.waits
      results := h.results
      counts := h.counts
      inv := hinv }

/-- A section never fails: the assertion of `Put` and the one of `Take` hold. -/
theorem QueueCode.eval_ok (hbuffer : buffer.Documented content) (m : QueueCall α)
    (d : QueueData β α) : ∃ r, (QueueCode.body buffer m).eval d = .ok r := by
  cases m with
  | put x =>
    cases hfull : buffer.full d.queue with
    | true => exact ⟨_, QueueCode.eval_put_full hfull⟩
    | false => exact ⟨_, QueueCode.eval_put_room hfull⟩
  | take =>
    cases hempty : buffer.empty d.queue with
    | true => exact ⟨_, QueueCode.eval_take_nil hempty⟩
    | false =>
      have hne : content d.queue ≠ [] := by
        intro hnil
        rw [(hbuffer.empty_iff d.queue).mpr hnil] at hempty
        cases hempty
      obtain ⟨front, rest, hcons⟩ := List.exists_cons_of_ne_nil hne
      exact ⟨_, QueueCode.eval_take_cons hempty (hbuffer.front_eq d.queue front rest hcons)⟩
  | empty | full | size | capacity => exact ⟨_, rfl⟩

theorem runSection_ok (hbuffer : buffer.Documented content) (t : τ) (m : QueueCall α)
    (origin : Option QueueCondition)
    (woken : Multiset τ) :
    ∃ a', a.runSection (QueueCode.body buffer) t m origin woken = .ok a' := by
  have hok : ∃ r, (QueueCode.body buffer m).eval a.data = .ok r :=
    QueueCode.eval_ok hbuffer m a.data
  obtain ⟨⟨d, e⟩, heval⟩ := hok
  cases e with
  | wait c => exact ⟨_, by rw [AtomicMonitor.runSection, heval]; rfl⟩
  | done g r => exact ⟨_, by rw [AtomicMonitor.runSection, heval]; rfl⟩

theorem Queued.step (hbuffer : buffer.Documented content) (h : Queued buffer content maxSize a q)
    (y : MonitorLabel τ (QueueCall α)) :
    ∃ labels, EndAlike (Queued buffer content maxSize) (a.step (QueueCode.body buffer) y)
      (run (BoundedBlockingQueue.step buffer) q labels) := by
  have hsection : ∀ t m origin woken, a.call t = Option.map (m, ·) origin →
      (∀ c, origin = some c → (a.cond c).Resumable t) →
      ∃ labels, EndAlike (Queued buffer content maxSize)
        (a.runSection (QueueCode.body buffer) t m origin woken)
        (run (BoundedBlockingQueue.step buffer) q labels) := by
    intro t m origin woken hcall hres
    have hok : ∃ a', a.runSection (QueueCode.body buffer) t m origin woken = .ok a' :=
      runSection_ok hbuffer t m origin woken
    obtain ⟨a', hs⟩ := hok
    obtain ⟨labels, q', hq', hqueued⟩ := h.runSection hbuffer hcall hres hs
    refine ⟨labels, ?_⟩
    rw [hs, hq']
    exact hqueued
  cases y with
  | enter t m woken =>
    simp only [AtomicMonitor.step]
    split
    · next hcall => exact hsection t m none woken hcall (by simp)
    · exact ⟨[], h⟩
  | resume t woken =>
    simp only [AtomicMonitor.step]
    split
    · exact ⟨[], h⟩
    · next m c hcall =>
      split
      · next hres =>
        refine hsection t m (some c) woken hcall fun c' hc => ?_
        cases hc
        exact hres
      · exact ⟨[], h⟩
  | wakeUp t =>
    simp only [AtomicMonitor.step]
    split
    · exact ⟨[], h⟩
    · next m c hcall =>
      split
      · next hmem =>
        obtain ⟨label, q', hq', hqueued⟩ := h.wakeUp hbuffer hmem
        refine ⟨[label], ?_⟩
        rw [run_singleton, hq']
        exact hqueued
      · exact ⟨[], h⟩

end Simulation

/-- What the accesses have done, against a run `q` of undivided steps. -/
structure LockedQueue.RunsAs [DecidableEq τ] (buffer : CircularBuffer β α)
    (content : β → List α) (maxSize : ℕ) (s : LockedQueue τ β α)
    (q : BoundedBlockingQueue τ β α) : Prop where
  guarded : s.Guarded (QueueCode.body buffer)
  disciplined : q.Disciplined content maxSize
  notEmpty_eq : s.cond .notEmpty = q.notEmpty
  notFull_eq : s.cond .notFull = q.notFull

  /-- While nobody has the mutex the buffers are the same. -/
  free : s.lock.mutex = none → s.data = ⟨q.queue, q.stored, q.taken⟩

  /-- The values that `Take` has returned, in this order, are the first ones that have been put. -/
  values : s.returned.filterMap (·.2.value?) <+: q.stored

  counts : ∀ t n, (t, .count n) ∈ s.returned → n ≤ maxSize

variable [DecidableEq τ]

theorem Queued.runsAs {buffer : CircularBuffer β α} {content : β → List α} {maxSize : ℕ}
    {s : LockedQueue τ β α} {a : QueueMonitor τ β α}
    {q : BoundedBlockingQueue τ β α} (hs : s.Refines (QueueCode.body buffer) a)
    (ha : Queued buffer content maxSize a q) : s.RunsAs buffer content maxSize q := by
  have hreturned : s.returned <+: a.results := hs.returned_prefix
  have hdisciplined := ha.inv.disciplined
  exact {
    guarded := hs.guarded
    disciplined := hdisciplined
    notEmpty_eq := by rw [← hs.cond_eq, ha.notEmpty_eq]
    notFull_eq := by rw [← hs.cond_eq, ha.notFull_eq]
    free := fun hfree => by rw [← (hs.free hfree).1, ha.data_eq]
    values := by
      have hprefix := hreturned.filterMap (·.2.value?)
      rw [ha.results] at hprefix
      exact hprefix.trans hdisciplined.fifo
    counts := fun t n hmem => ha.counts t n (hreturned.subset hmem) }

/-- However the accesses of the methods are interleaved, nothing fails, and they amount to a run of
the methods one after another. -/
theorem bounded_queue_accesses_refine (buffer : CircularBuffer β α) (content : β → List α)
    (hbuffer : buffer.Documented content) (maxSize : ℕ)
    (labels : List (LockLabel τ (QueueCall α))) :
    Yields (run (LockedObject.step (QueueCode.body buffer)) (.new ⟨buffer.new maxSize, [], []⟩)
      labels) fun s => ∃ undivided q,
        run (BoundedBlockingQueue.step buffer) (.new buffer maxSize) undivided = .ok q ∧
          LockedQueue.RunsAs buffer content maxSize s q := by
  obtain ⟨ys, hsections⟩ := LockedObject.run_refines_atomic (QueueCode.body buffer)
    (⟨buffer.new maxSize, [], []⟩ : QueueData β α) labels
  have hnew : Queued buffer content maxSize
      ⟨⟨buffer.new maxSize, [], []⟩, fun _ => .new, fun _ => none, []⟩
      (.new buffer maxSize : BoundedBlockingQueue τ β α) := queued_new hbuffer
  obtain ⟨undivided, hqueue⟩ := run_refines (C := fun _ _ => True)
    (fun _ _ y h _ => Queued.step hbuffer h y) hnew (along_of_forall (fun _ _ => trivial) _ ys)
  obtain ⟨q, hq, -⟩ := run_invariant (C := fun _ _ => True)
    (fun q label h _ => BoundedBlockingQueue.Inv.step_inv hbuffer h label) hnew.inv
    (along_of_forall (fun _ _ => trivial) _ undivided)
  obtain ⟨a, ha, hqueued⟩ := hqueue.of_ok hq
  refine (hsections.of_ok ha).mono fun s hs => ?_
  exact ⟨undivided, q, hq, hqueued.runsAs hs⟩

/-- A putter gets the mutex while a taker is about to ask for it. -/
theorem bounded_queue_accesses_refine_put_and_take :
    Yields (run (LockedObject.step (QueueCode.body .ofList)) (.new ⟨(1, []), [], []⟩)
      [.call 0 .take, .call 1 (.put 'a'), .advance 1 0, .advance 0 0, .advance 1 0, .advance 1 0,
        .advance 1 0, .advance 1 0, .advance 1 0, .advance 0 0, .advance 0 0, .advance 0 0])
      fun s : LockedQueue ℕ (ℕ × List Char) Char => ∃ undivided q,
        run (BoundedBlockingQueue.step .ofList) (.new .ofList 1) undivided = .ok q ∧
          LockedQueue.RunsAs .ofList Prod.snd 1 s q :=
  bounded_queue_accesses_refine .ofList Prod.snd CircularBuffer.ofList_documented 1 _

end Dwater
