import Dwater.Net.HandleEvent
import Dwater.Net.Lifecycle.Runs

/-! # How far a connection is

Under a living server five bodies run for a connection, one after the other, on two
threads: `NewConnection`, `ConnectionEstablished`, `HandleClose`, `RemoveConenctionInLoop`
and `ConnectionDestroyed`. How many of them have run can be read off the state, and every
step moves a connection forward by exactly the bodies that run in it.
-/

set_option autoImplicit false
namespace Dwater

open Fallible TcpConnection

variable {ι : Type}

/-- The bodies that run for connection `c`. -/
inductive ServerEvent
  | newConnection (c : ℕ)
  | connectionEstablished (c : ℕ)
  | handleClose (c : ℕ)
  | removeConenctionInLoop (c : ℕ)
  | connectionDestroyed (c : ℕ)
  deriving DecidableEq, Repr

def ServerEvent.conn : ServerEvent → ℕ
  | newConnection c | connectionEstablished c | handleClose c | removeConenctionInLoop c
  | connectionDestroyed c => c

def ServerEvent.accepts : ServerEvent → Bool
  | newConnection _ => true
  | _ => false

/-- All that ever runs for connection `c`, in order. -/
def protocol (c : ℕ) : List ServerEvent :=
  [.newConnection c, .connectionEstablished c, .handleClose c, .removeConenctionInLoop c,
    .connectionDestroyed c]

/-- How many bodies a connection in this state has behind it at least. -/
def StateE.rank : StateE → ℕ
  | kconnecting => 1
  | kconnected | kdisconnecting => 2
  | kdisconnected => 3

theorem StateE.rank_eq_three {st : StateE} : st.rank = 3 ↔ st = .kdisconnected := by
  cases st <;> simp [rank]

/-- How many bodies have run for a connection at a stage. -/
def Stage.progress : Stage → ℕ
  | waiting _ => 1
  | opening _ | opened _ => 2
  | closing | leaving | removing => 3
  | condemned => 4
  | ending | parting | gone => 5

def Stage.doomed : Stage → Bool
  | waiting doomed | opening doomed | opened doomed => doomed
  | _ => false

namespace TcpServer

def events [DecidableEq ι] (s : TcpServer ι) : ServerLabel ι → List ServerEvent
  | .newConnection io _ =>
    if s.phase = .alive ∧ s.stack s.base = [] then
      if io = s.base then [.newConnection s.nextConnid, .connectionEstablished s.nextConnid]
      else [.newConnection s.nextConnid]
    else []
  | .proceed i =>
    match s.stack i with
    | .closeCallback c :: _ => if i = s.base then [.removeConenctionInLoop c] else []
    | _ => []
  | .runFunctor i _ =>
    match s.stack i, s.queue i with
    | [], .connectionEstablished c :: _ => [.connectionEstablished c]
    | [], .connectionDestroyed c :: _ => [.connectionDestroyed c]
    | [], .removeConnectionInLoop c :: _ => [.removeConenctionInLoop c]
    | [], .functor c .forceCloseInLoop :: _ =>
      match s.entries c with
      | some e => if e.conn.state.rank = 2 then [.handleClose c] else []
      | none => []
    | _, _ => []
  | .handleRead c (.bytes []) =>
    match s.entries c with
    | some e =>
      if s.stack e.loop = [] ∧ e.conn.channel.isReading = true then [.handleClose c] else []
    | none => []
  | _ => []

def progress (s : TcpServer ι) (c : ℕ) : ℕ :=
  match s.entries c with
  | none => 0
  | some e =>
    if e.conn.state = .kdisconnected ∧ c ∉ s.connections then
      if .connectionDestroyed c ∈ s.queue e.loop then 4 else 5
    else e.conn.state.rank

/-- From one state to the next the bodies `xs` have run. -/
structure Moves (s s' : TcpServer ι) (xs : List ServerEvent) : Prop where
  phase_eq : s'.phase = s.phase
  next_eq : s'.nextConnid = s.nextConnid + xs.countP ServerEvent.accepts
  take_eq : ∀ c, (protocol c).take (s'.progress c) =
    (protocol c).take (s.progress c) ++ xs.filter fun x => x.conn = c

section Observations

variable {s s' : TcpServer ι} {c d : ℕ} {e e' : Entry ι}

theorem progress_of_rank (hc : s.entries c = some e)
    (h : e.conn.state = .kdisconnected → c ∈ s.connections) :
    s.progress c = e.conn.state.rank := by
  unfold progress
  rw [hc]
  exact if_neg fun hn => hn.2 (h hn.1)

theorem progress_of_unlisted (hc : s.entries c = some e) (hs : e.conn.state = .kdisconnected)
    (hn : c ∉ s.connections) :
    s.progress c = if .connectionDestroyed c ∈ s.queue e.loop then 4 else 5 := by
  unfold progress
  rw [hc]
  exact if_pos ⟨hs, hn⟩

theorem progress_congr (hc : s.entries c = some e) (hc' : s'.entries c = some e')
    (hl : e'.loop = e.loop) (hr : e'.conn.state.rank = e.conn.state.rank)
    (hm : c ∈ s'.connections ↔ c ∈ s.connections)
    (hq : .connectionDestroyed c ∈ s'.queue e.loop ↔ .connectionDestroyed c ∈ s.queue e.loop) :
    s'.progress c = s.progress c := by
  have hd : e'.conn.state = .kdisconnected ↔ e.conn.state = .kdisconnected := by
    rw [← StateE.rank_eq_three, ← StateE.rank_eq_three, hr]
  simp only [progress, hc, hc', hl, hr, hd, hm, hq]

theorem mem_tasksOf_destroyed {ts : List Task} :
    .connectionDestroyed c ∈ tasksOf c ts ↔ .connectionDestroyed c ∈ ts := by
  simp [tasksOf, Task.isLife, Task.conn]

theorem count_held_eq (halive : s.phase = .alive) : s.held.count c = s.connections.count c := by
  rw [held, if_pos halive]

theorem Elsewhere.progress_eq (h : Elsewhere c s s') (halive : s.phase = .alive) (hd : d ≠ c) :
    s'.progress d = s.progress d := by
  have hm : d ∈ s'.connections ↔ d ∈ s.connections := by
    have hheld := h.held_eq d hd
    rw [count_held_eq halive, count_held_eq (h.phase_eq.trans halive)] at hheld
    rw [← List.count_pos_iff, ← List.count_pos_iff, hheld]
  have he := h.entries_eq d hd
  cases hc : s.entries d with
  | none =>
    rw [hc] at he
    simp only [progress, hc, he]
  | some e =>
    rw [hc] at he
    refine progress_congr hc he rfl rfl hm ?_
    rw [← mem_tasksOf_destroyed, h.tasks_eq d hd, mem_tasksOf_destroyed]

theorem Elsewhere.still (h : Elsewhere c s s') (halive : s.phase = .alive)
    (hc : s'.progress c = s.progress c) (hn : s'.nextConnid = s.nextConnid) : Moves s s' [] := by
  refine ⟨h.phase_eq, hn, fun d => ?_⟩
  by_cases hd : d = c
  · subst hd
    simp [hc]
  · simp [h.progress_eq halive hd]

theorem Elsewhere.moves {x : ServerEvent} (h : Elsewhere x.conn s s') (halive : s.phase = .alive)
    (hx : (protocol x.conn)[s.progress x.conn]? = some x)
    (hc : s'.progress x.conn = s.progress x.conn + 1)
    (hn : s'.nextConnid = s.nextConnid + [x].countP ServerEvent.accepts) : Moves s s' [x] := by
  refine ⟨h.phase_eq, hn, fun d => ?_⟩
  by_cases hd : d = x.conn
  · subst hd
    rw [hc, List.take_add_one, hx]
    simp
  · simp [h.progress_eq halive hd, Ne.symm hd]

theorem Moves.trans {s'' : TcpServer ι} {xs ys : List ServerEvent} (h : Moves s s' xs)
    (h' : Moves s' s'' ys) : Moves s s'' (xs ++ ys) := by
  refine ⟨h'.phase_eq.trans h.phase_eq, ?_, fun d => ?_⟩
  · rw [h'.next_eq, h.next_eq, List.countP_append, Nat.add_assoc]
  · rw [h'.take_eq, h.take_eq, List.filter_append, List.append_assoc]

theorem moves_refl (s : TcpServer ι) : Moves s s [] := ⟨rfl, rfl, fun _ => by simp⟩

theorem Matches.doomed_eq {st : Stage} (hm : s.Matches c e st) (halive : s.phase = .alive) :
    st.doomed = false := by
  have hf := hm.fits
  cases st with
  | waiting d => exact Bool.eq_false_iff.mpr fun hd => hf.2.2.1 hd halive
  | opening d | opened d => exact Bool.eq_false_iff.mpr fun hd => hf.2 hd halive
  | _ => rfl

/-- Under a living server the stage of a connection says how far it is. -/
theorem Matches.progress_eq {st : Stage} (hm : s.Matches c e st) (halive : s.phase = .alive)
    (hc : s.entries c = some e) : s.progress c = st.progress := by
  have hheld := hm.held_eq
  have hf := hm.fits
  have hpending : .connectionDestroyed c ∈ s.queue e.loop ↔
      .connectionDestroyed c ∈ st.tasks c := by
    rw [← mem_tasksOf_destroyed, hm.tasks_eq]
  rw [count_held_eq halive] at hheld
  cases st with
  | waiting d =>
    rw [progress_of_rank hc (by simp [hf.1]), hf.1]
    rfl
  | opening d | opened d =>
    rcases hf.1 with ho | ⟨-, ho⟩
    all_goals
      rw [progress_of_rank hc (by simp [ho]), ho]
      rfl
  | closing | leaving | removing =>
    have hmem : c ∈ s.connections := List.count_pos_iff.mp (by simp [hheld, Stage.held])
    rw [progress_of_rank hc fun _ => hmem, hf.2.1]
    rfl
  | condemned =>
    rw [progress_of_unlisted hc hf.1 (List.count_eq_zero.mp hheld)]
    exact if_pos (hpending.mpr List.mem_cons_self)
  | ending | parting | gone =>
    rw [progress_of_unlisted hc hf.1 (List.count_eq_zero.mp hheld)]
    exact if_neg fun hmem => absurd (hpending.mp hmem) List.not_mem_nil

theorem Inv.listed_of_open (h : s.Inv) (halive : s.phase = .alive) (hc : s.entries c = some e)
    (ho : e.conn.state.rank ≤ 2) : c ∈ s.connections := by
  obtain ⟨st, hm⟩ := h.life c e hc
  have hheld := hm.held_eq
  rw [count_held_eq halive] at hheld
  apply List.count_pos_iff.mp
  rw [hheld]
  have hf := hm.fits
  have hne : e.conn.state ≠ .kdisconnected := by
    intro hd
    simp [hd, StateE.rank] at ho
  have hdoomed := hm.doomed_eq halive
  cases st with
  | waiting d | opening d | opened d =>
    cases hdoomed
    simp [Stage.held]
  | closing | leaving | removing => exact absurd hf.2.1 hne
  | condemned | ending | parting | gone => exact absurd hf.1 hne

end Observations

section Steps

variable {s s' : TcpServer ι} {c : ℕ} {e : Entry ι} {i : ι} {r : TcpConnection × List Effect}

theorem sendRest_state {conn conn' : TcpConnection} {rest : List Byte}
    (h : conn.sendRest rest = .ok conn') : conn'.state = conn.state := by
  obtain ⟨b, -, h⟩ := bind_eq_ok h
  cases h
  rfl

theorem sendInLoop_state {conn : TcpConnection} {data : List Byte} {w : WriteResult}
    (h : conn.sendInLoop data w = .ok r) : r.1.state = conn.state := by
  unfold TcpConnection.sendInLoop at h
  by_cases hd : conn.state = .kdisconnected
  · rw [if_pos hd] at h
    cases h
    rfl
  · rw [if_neg hd] at h
    obtain ⟨-, h⟩ := check_bind_eq_ok h
    rcases ite_eq_ok h with ⟨-, h⟩ | rfl
    · obtain ⟨conn', hrest, h⟩ := bind_eq_ok h
      cases h
      exact sendRest_state hrest
    · rfl

theorem handleClose_state {conn : TcpConnection} (h : conn.handleClose = .ok r) :
    conn.state.rank = 2 ∧ r.1.state = .kdisconnected := by
  obtain ⟨ho, h⟩ := check_bind_eq_ok h
  cases h
  exact ⟨by rcases ho with ho | ho <;> rw [ho] <;> rfl, rfl⟩

theorem removeChannel_state {conn conn' : TcpConnection} (h : conn.removeChannel = .ok conn') :
    conn'.state = conn.state := by
  obtain ⟨ch, -, h⟩ := bind_eq_ok h
  cases h
  rfl

variable [DecidableEq ι]

theorem mem_queue_after :
    .connectionDestroyed c ∈ (s.after c e r).queue i ↔ .connectionDestroyed c ∈ s.queue i := by
  by_cases hi : i = e.loop
  · subst hi
    have hq : (s.after c e r).queue e.loop =
        s.queue e.loop ++ r.2.filterMap (Effect.task c) := Function.update_self ..
    rw [hq, List.mem_append]
    refine or_iff_left fun hmem => ?_
    obtain ⟨f, hf, -⟩ := task_functor hmem
    cases hf
  · have hq : (s.after c e r).queue i = s.queue i := Function.update_of_ne hi _ _
    rw [hq]

theorem entries_after : (s.after c e r).entries c = some { e with conn := r.1 } :=
  Function.update_self ..

theorem after_still {e₀ : Entry ι} (halive : s.phase = .alive) (hc : s.entries c = some e₀)
    (hl : e.loop = e₀.loop) (hr : r.1.state.rank = e₀.conn.state.rank) :
    Moves s (s.after c e r) [] :=
  elsewhere_after.still halive (progress_congr hc entries_after hl hr Iff.rfl mem_queue_after)
    rfl

theorem handleClose_moves {conn : TcpConnection} (h : s.Inv) (halive : s.phase = .alive)
    (hc : s.entries c = some e) (hs : conn.state = e.conn.state)
    (hr : conn.handleClose = .ok r) : Moves s (s.after c e r) [.handleClose c] := by
  obtain ⟨hrank, hd⟩ := handleClose_state hr
  rw [hs] at hrank
  have hmem : c ∈ s.connections := h.listed_of_open halive hc (Nat.le_of_eq hrank)
  have hp : s.progress c = 2 := (progress_of_rank hc fun _ => hmem).trans hrank
  refine Elsewhere.moves (x := .handleClose c) elsewhere_after halive ?_ ?_ rfl
  · simp only [ServerEvent.conn, hp]
    rfl
  · simp only [ServerEvent.conn, hp]
    rw [progress_of_rank entries_after fun _ => hmem]
    simp only [hd]
    rfl

theorem forceCloseInLoop_moves (h : s.Inv) (halive : s.phase = .alive)
    (hc : s.entries c = some e) (hr : e.conn.forceCloseInLoop = .ok r) :
    Moves s (s.after c e r) (if e.conn.state.rank = 2 then [.handleClose c] else []) := by
  unfold TcpConnection.forceCloseInLoop at hr
  split at hr
  · rw [if_pos (handleClose_state hr).1]
    exact handleClose_moves h halive hc rfl hr
  · next ho =>
    have hrank : e.conn.state.rank ≠ 2 := by
      cases hs : e.conn.state <;> simp_all [StateE.rank]
    cases hr
    rw [if_neg hrank]
    exact after_still halive hc rfl rfl

theorem execute_still {e₀ : Entry ι} {w : WriteResult} {f : Functor} (halive : s.phase = .alive)
    (hc : s.entries c = some e₀) (hl : e.loop = e₀.loop)
    (hr : e.conn.state.rank = e₀.conn.state.rank) (hf : f ≠ .forceCloseInLoop)
    (hs : s.execute c e w f = .ok s') : Moves s s' [] := by
  cases f with
  | sendInLoop message =>
    obtain ⟨r, hsend, rfl⟩ := map_eq_ok hs
    exact after_still halive hc hl ((congrArg StateE.rank (sendInLoop_state hsend)).trans hr)
  | shutdownInLoop =>
    cases hs
    exact after_still halive hc hl hr
  | forceCloseInLoop => exact absurd rfl hf
  | startReadInLoop =>
    cases hs
    have hst : e.conn.startReadInLoop.state = e.conn.state := by
      unfold TcpConnection.startReadInLoop
      split <;> rfl
    exact after_still halive hc hl ((congrArg StateE.rank hst).trans hr)
  | stopReadInLoop =>
    cases hs
    have hst : e.conn.stopReadInLoop.state = e.conn.state := by
      unfold TcpConnection.stopReadInLoop
      split <;> rfl
    exact after_still halive hc hl ((congrArg StateE.rank hst).trans hr)
  | writeCompleteCallback | highWaterMarkCallback n =>
    cases hs
    exact moves_refl s

theorem removeConnectionInLoop_moves (halive : s.phase = .alive) (hc : s.entries c = some e)
    (hd : e.conn.state = .kdisconnected) (hone : s.connections.count c = 1)
    (hs : s.removeConnectionInLoop c = .ok s') :
    Moves s s' [.removeConenctionInLoop c] := by
  obtain ⟨-, hs⟩ := check_bind_eq_ok hs
  obtain ⟨hmem, hs⟩ := check_bind_eq_ok hs
  simp only [hc] at hs
  cases hs
  have hgone : c ∉ s.connections.erase c := by
    rw [← List.count_pos_iff, List.count_erase_self]
    omega
  have hp : s.progress c = 3 := by
    rw [progress_of_rank hc fun _ => hmem, hd]
    rfl
  have hp' : (enqueue { s with connections := s.connections.erase c } e.loop
      [.connectionDestroyed c]).progress c = 4 :=
    Eq.trans (progress_of_unlisted hc hd hgone) (if_pos (by simp [enqueue]))
  refine Elsewhere.moves (x := .removeConenctionInLoop c)
    ((elsewhere_erase halive).trans
      (elsewhere_enqueue fun _ ht => List.mem_singleton.mp ht ▸ rfl)) halive ?_ ?_ rfl
  · simp only [ServerEvent.conn, hp]
    rfl
  · simp only [ServerEvent.conn, hp, hp']

omit [DecidableEq ι] in
theorem Moves.of_progress {s₀ : TcpServer ι} {xs : List ServerEvent} (h : Moves s s' xs)
    (hp : s₀.phase = s.phase) (hn : s₀.nextConnid = s.nextConnid)
    (he : ∀ d, s₀.progress d = s.progress d) : Moves s₀ s' xs := by
  refine ⟨h.phase_eq.trans hp.symm, hn ▸ h.next_eq, fun d => ?_⟩
  rw [he d]
  exact h.take_eq d

theorem progress_dequeue {t : Task} {ts : List Task} (halive : s.phase = .alive)
    (hq : s.queue i = t :: ts) (ht : ∀ d, t ≠ .connectionDestroyed d) (d : ℕ) :
    progress { s with queue := Function.update s.queue i ts } d = s.progress d := by
  by_cases hd : d = t.conn
  · have hmem : ∀ j, .connectionDestroyed d ∈ Function.update s.queue i ts j ↔
        .connectionDestroyed d ∈ s.queue j := by
      intro j
      by_cases hj : j = i
      · subst hj
        rw [Function.update_self, hq, List.mem_cons]
        exact (or_iff_right (ht d).symm).symm
      · rw [Function.update_of_ne hj]
    simp only [progress, hmem]
  · exact (elsewhere_dequeue hq).progress_eq halive hd

theorem Moves.of_dequeue {t : Task} {ts : List Task} {xs : List ServerEvent}
    (halive : s.phase = .alive) (hq : s.queue i = t :: ts) (ht : ∀ d, t ≠ .connectionDestroyed d)
    (h : Moves { s with queue := Function.update s.queue i ts } s' xs) : Moves s s' xs :=
  h.of_progress rfl rfl fun d => (progress_dequeue halive hq ht d).symm

theorem connectionEstablished_moves (halive : s.phase = .alive) (hc : s.entries c = some e)
    (hs : s.connectionEstablished c e = .ok s') : Moves s s' [.connectionEstablished c] := by
  obtain ⟨r, hr, rfl⟩ := map_eq_ok hs
  obtain ⟨hconn, hr⟩ := check_bind_eq_ok hr
  cases hr
  have hp : s.progress c = 1 := by
    rw [progress_of_rank hc (by simp [hconn]), hconn]
    rfl
  refine Elsewhere.moves (x := .connectionEstablished c) elsewhere_after halive ?_ ?_ rfl
  · simp only [ServerEvent.conn, hp]
    rfl
  · simp only [ServerEvent.conn, hp]
    rw [progress_of_rank entries_after (by simp [setState])]
    rfl

theorem destroyed_moves (h : s.Inv) (halive : s.phase = .alive) {ts : List Task}
    (hq : s.queue e.loop = .connectionDestroyed c :: ts) (hc : s.entries c = some e) :
    Moves s (connectionDestroyed { s with queue := Function.update s.queue e.loop ts } c e)
      [.connectionDestroyed c] := by
  obtain ⟨st, hm⟩ := h.life c e hc
  have htasks := hm.tasks_eq
  rw [hq, tasksOf_cons, if_pos ⟨rfl, rfl⟩] at htasks
  have hst : st = .condemned := by
    have hdoomed := hm.doomed_eq halive
    cases st with
    | condemned => rfl
    | waiting d | opening d | opened d =>
      cases hdoomed
      cases htasks
    | _ => cases htasks
  subst hst
  obtain ⟨hd, -⟩ := hm.fits
  have hgone : c ∉ s.connections := by
    rw [← List.count_eq_zero, ← count_held_eq halive]
    exact hm.held_eq
  have hlast : .connectionDestroyed c ∉ ts := by
    rw [← mem_tasksOf_destroyed, (List.cons.inj htasks).2]
    exact List.not_mem_nil
  have hp : s.progress c = 4 := by
    rw [progress_of_unlisted hc hd hgone, hq]
    exact if_pos List.mem_cons_self
  refine Elsewhere.moves (x := .connectionDestroyed c)
    ((elsewhere_dequeue hq).trans elsewhere_after) halive ?_ ?_ rfl
  · simp only [ServerEvent.conn, hp]
    rfl
  · simp only [ServerEvent.conn, hp]
    unfold connectionDestroyed TcpConnection.connectionDestroyed
    rw [if_neg (by rw [hd]; decide)]
    refine Eq.trans (progress_of_unlisted entries_after hd hgone) (if_neg fun hmem => hlast ?_)
    simpa using mem_queue_after.mp hmem

omit [DecidableEq ι] in
theorem Inv.listed_of_removal {ts : List Task} (h : s.Inv) (halive : s.phase = .alive)
    (hq : s.queue i = .removeConnectionInLoop c :: ts) :
    ∃ e, s.entries c = some e ∧ e.conn.state = .kdisconnected ∧ s.connections.count c = 1 := by
  obtain ⟨rfl, j, e, hc, -⟩ := h.shape.tasks i _ (hq ▸ List.mem_cons_self)
  obtain ⟨st, hm⟩ := h.life c e hc
  have hr := hm.removals_eq
  rw [hq, removalsOf_cons, if_pos ⟨rfl, rfl⟩] at hr
  rw [← count_held_eq halive, hm.held_eq]
  cases st with
  | removing => exact ⟨e, hc, hm.fits.2.1, rfl⟩
  | _ => cases hr

omit [DecidableEq ι] in
theorem Inv.listed_of_closeCallback {frames : List Frame} (h : s.Inv) (halive : s.phase = .alive)
    (hst : s.stack i = .closeCallback c :: frames) :
    ∃ e, s.entries c = some e ∧ e.conn.state = .kdisconnected ∧ s.connections.count c = 1 := by
  obtain ⟨e, st, hc, rfl, hm, hfr⟩ := h.frame_entry hst rfl
  rw [← count_held_eq halive, hm.held_eq]
  cases st with
  | leaving => exact ⟨e, hc, hm.fits.2.1, rfl⟩
  | _ => cases hfr

theorem runFunctor_moves {w : WriteResult} (h : s.Inv) (halive : s.phase = .alive)
    (hst : s.stack i = []) (hs : s.runFunctor i w = .ok s') :
    Moves s s' (s.events (.runFunctor i w)) := by
  unfold runFunctor at hs
  simp only [events, hst]
  cases hq : s.queue i with
  | nil =>
    simp only [hq] at hs
    cases hs
    exact moves_refl s
  | cons t ts =>
    simp only [hq] at hs
    have hp := h.shape.tasks i t (hq ▸ List.mem_cons_self)
    cases t with
    | connectionEstablished c =>
      obtain ⟨e, hc, rfl⟩ := hp
      simp only [hc] at hs
      refine .of_dequeue halive hq (by simp) ?_
      exact connectionEstablished_moves halive hc hs
    | connectionDestroyed c =>
      obtain ⟨e, hc, rfl⟩ := hp
      simp only [hc] at hs
      cases hs
      exact destroyed_moves h halive hq hc
    | removeConnectionInLoop c =>
      obtain ⟨e, hc, hd, hone⟩ := h.listed_of_removal halive hq
      refine .of_dequeue halive hq (by simp) ?_
      exact removeConnectionInLoop_moves halive hc hd hone hs
    | functor c f =>
      obtain ⟨⟨e, hc, rfl⟩, -⟩ := hp
      simp only [hc] at hs
      refine .of_dequeue halive hq (by simp) ?_
      cases f with
      | forceCloseInLoop =>
        obtain ⟨r, hr, rfl⟩ := map_eq_ok hs
        simp only [hc]
        exact forceCloseInLoop_moves (h.dequeue_functor hq hc) halive hc hr
      | _ => exact execute_still halive hc rfl rfl (by simp) hs

theorem proceed_moves (h : s.Inv) (halive : s.phase = .alive) (hs : s.proceed i = .ok s') :
    Moves s s' (s.events (.proceed i)) := by
  unfold proceed at hs
  simp only [events]
  cases hst : s.stack i with
  | nil =>
    simp only [hst] at hs
    cases hs
    exact moves_refl s
  | cons f frames =>
    simp only [hst] at hs
    have hpop : ∀ d, (s.setStack i frames).progress d = s.progress d := fun _ => rfl
    cases f with
    | connectionCallback c b =>
      cases hs
      obtain ⟨e, st, hc, -, hm, -⟩ := h.frame_entry hst rfl
      have hc' : (s.setStack i frames).entries c = some e := hc
      rw [record_eq hc']
      refine Elsewhere.still ((elsewhere_pop hst rfl).trans elsewhere_setEntry) halive ?_ rfl
      exact progress_congr hc (Function.update_self ..) rfl rfl Iff.rfl Iff.rfl
    | closeCallback c =>
      obtain ⟨e, hc, hd, hone⟩ := h.listed_of_closeCallback halive hst
      obtain ⟨-, hs⟩ := check_bind_eq_ok hs
      have hbase : (s.setStack i frames).base = s.base := rfl
      rw [hbase] at hs
      split at hs
      · next hi =>
        simp only [if_pos hi]
        refine Moves.of_progress (s := s.setStack i frames) ?_ rfl rfl hpop
        exact removeConnectionInLoop_moves halive hc hd hone hs
      · next hi =>
        cases hs
        simp only [if_neg hi]
        refine Elsewhere.still ((elsewhere_pop hst rfl).trans
          (elsewhere_enqueue fun _ ht => List.mem_singleton.mp ht ▸ rfl)) halive ?_ rfl
        refine progress_congr hc hc rfl rfl Iff.rfl ?_
        simp only [enqueue, setStack, Function.update_apply]
        split <;> simp_all
    | removeChannel c =>
      obtain ⟨e, st, hc, -, hm, -⟩ := h.frame_entry hst rfl
      simp only [hc] at hs
      obtain ⟨conn, hconn, hs⟩ := bind_eq_ok hs
      cases hs
      rw [record_eq (Function.update_self ..)]
      refine Elsewhere.still ((elsewhere_pop hst rfl).trans
        (elsewhere_setEntry.trans elsewhere_setEntry)) halive ?_ rfl
      refine progress_congr hc (Function.update_self ..) rfl ?_ Iff.rfl Iff.rfl
      exact congrArg StateE.rank (removeChannel_state hconn)
    | destroying rest =>
      have hi : i = s.base := h.shape.frames i (.destroying rest) (hst ▸ List.mem_cons_self)
      subst hi
      exact absurd rfl (h.shape.undoomed halive _ (hst ▸ List.mem_cons_self))

theorem newConnection_moves {sockfd : ℕ} (h : s.Inv) (halive : s.phase = .alive)
    (hst : s.stack s.base = []) (hs : s.newConnection i sockfd = .ok s') :
    Moves s s' (s.events (.newConnection i sockfd)) := by
  obtain ⟨conn, hconn, hs⟩ := bind_eq_ok hs
  obtain ⟨hconnecting, -⟩ := (new_yields sockfd).of_eq hconn
  simp only [events, halive, hst, true_and, if_true]
  have hzero : s.progress s.nextConnid = 0 := by
    simp [progress, h.shape.unborn _ (Nat.le_refl _)]
  -- the connection as it is registered
  generalize he : (⟨i, { conn with writeCompleteCallback := s.writeCompleteCallback }, []⟩ :
    Entry ι) = e at hs
  have hstate : e.conn.state = .kconnecting := he ▸ hconnecting
  have hentry : (s.register e).entries s.nextConnid = some e := Function.update_self ..
  have hone : (s.register e).progress s.nextConnid = 1 := by
    rw [progress_of_rank hentry (by simp [hstate]), hstate]
    rfl
  have hreg : Moves s (s.register e) [.newConnection s.nextConnid] := by
    refine Elsewhere.moves (x := .newConnection s.nextConnid) (elsewhere_register halive e) halive
      ?_ ?_ rfl
    · simp only [ServerEvent.conn, hzero]
      rfl
    · simp only [ServerEvent.conn, hzero, hone]
  split at hs
  · next hi =>
    simp only [hi, if_true]
    exact hreg.trans (connectionEstablished_moves (hreg.phase_eq.trans halive) hentry hs)
  · next hi =>
    cases hs
    simp only [hi, if_false]
    have hwait : Moves (s.register e)
        ((s.register e).enqueue i [.connectionEstablished s.nextConnid]) [] := by
      refine Elsewhere.still (c := s.nextConnid)
        (elsewhere_enqueue fun _ ht => List.mem_singleton.mp ht ▸ rfl) halive ?_ rfl
      refine progress_congr hentry hentry rfl rfl Iff.rfl ?_
      simp only [enqueue, Function.update_apply]
      split <;> simp_all
    exact hreg.trans hwait

theorem call_still {t : Option ι} (halive : s.phase = .alive) (hc : s.entries c = some e)
    (hr : r.1.state.rank = e.conn.state.rank)
    (hf : ∀ f, r.2 = [.runInLoop f] → f ≠ .forceCloseInLoop) (hs : s.call t c e r = .ok s') :
    Moves s s' [] := by
  unfold call at hs
  split at hs
  · next f hfx =>
    split at hs
    · exact execute_still (e := { e with conn := r.1 }) halive hc rfl hr (hf f hfx) hs
    · cases hs
      exact after_still halive hc rfl hr
  · cases hs
    exact after_still halive hc rfl hr

theorem shutdown_still {t : Option ι} (halive : s.phase = .alive) (hc : s.entries c = some e)
    (hs : s.call t c e e.conn.shutdown = .ok s') : Moves s s' [] := by
  refine call_still halive hc ?_ ?_ hs
  · unfold TcpConnection.shutdown
    split
    · next hconn => simp [setState, hconn, StateE.rank]
    · rfl
  · intro f hf
    unfold TcpConnection.shutdown at hf
    split at hf <;> cases hf
    simp

theorem forceClose_still {t : Option ι} (halive : s.phase = .alive) (hc : s.entries c = some e)
    (hs : s.call t c e e.conn.forceClose = .ok s') : Moves s s' [] := by
  refine call_still halive hc ?_ ?_ hs
  · unfold TcpConnection.forceClose
    split
    · next hopen => rcases hopen with ho | ho <;> simp [setState, ho, StateE.rank]
    · rfl
  · intro f hf
    unfold TcpConnection.forceClose at hf
    split at hf <;> cases hf

theorem send_still {t : Option ι} {message : List Byte} {w : WriteResult} (h : s.Inv)
    (halive : s.phase = .alive) (hc : s.entries c = some e)
    (hr : e.conn.send (t = some e.loop) message w = .ok r) (hs : s.call t c e r = .ok s') :
    Moves s s' [] := by
  obtain ⟨st, hm⟩ := h.life c e hc
  unfold TcpConnection.send at hr
  split at hr
  · next hconn =>
    split at hr
    · refine call_still halive hc (congrArg StateE.rank (sendInLoop_state hr)) ?_ hs
      intro f hf
      have hpost := (sendInLoop_yields hm.output.represents (by rw [hconn]; decide)).of_eq hr
      exact (hpost.output (.runInLoop f) (hf ▸ List.mem_cons_self)).elim
    · cases hr
      refine call_still halive hc rfl ?_ hs
      intro f hf
      cases hf
      simp
  · cases hr
    exact call_still halive hc rfl (by simp) hs

theorem handleRead_moves {x : ReadvResult} (h : s.Inv) (halive : s.phase = .alive)
    (hc : s.entries c = some e) (hr : e.conn.handleRead x = .ok r) :
    Moves s (s.after c e r) (if x = .bytes [] then [.handleClose c] else []) := by
  obtain ⟨st, hm⟩ := h.life c e hc
  cases x with
  | error errno =>
    cases hr
    simpa using after_still halive hc rfl rfl
  | bytes data =>
    obtain ⟨⟨b, n, errno⟩, hb, -, hn⟩ := Buffer.readFd_represents hm.input.represents data
    cases hn
    unfold TcpConnection.handleRead at hr
    rw [hb] at hr
    by_cases hd : data = []
    · subst hd
      have hclose : handleClose { e.conn with inputBuffer := b } = .ok r := hr
      rw [if_pos rfl]
      refine handleClose_moves h halive hc ?_ hclose
      rfl
    · have hpos : (0 : ℤ) < data.length := by
        have := List.length_pos_of_ne_nil hd
        omega
      simp only [bind, Except.bind, hpos, if_true] at hr
      cases hr
      rw [if_neg (by simpa using hd)]
      exact after_still halive hc rfl rfl

theorem events_handleRead {x : ReadvResult} : s.events (.handleRead c x) =
    match s.entries c with
    | some e =>
      if (s.stack e.loop = [] ∧ e.conn.channel.isReading = true) ∧ x = .bytes [] then
        [.handleClose c]
      else []
    | none => [] := by
  by_cases hx : x = .bytes []
  · subst hx
    simp [events]
  · cases hc : s.entries c <;> simp [events, hx]

/-- Every step under a living server moves the connections by the bodies that run in it. -/
theorem step_moves (h : s.Inv) (halive : s.phase = .alive) {x : ServerLabel ι} (hx : x ≠ .destroy)
    (hs : s.step x = .ok s') : Moves s s' (s.events x) := by
  cases x with
  | newConnection io sockfd =>
    simp only [step] at hs
    split at hs
    · next hp => exact newConnection_moves h halive hp.2 hs
    · next hp =>
      cases hs
      simp only [events, if_neg hp]
      exact moves_refl s
  | proceed i => exact proceed_moves h halive hs
  | runFunctor i w =>
    simp only [step] at hs
    split at hs
    · next hst => exact runFunctor_moves h halive hst hs
    · next hst =>
      cases hs
      have hnil : s.events (.runFunctor i w) = [] := by
        unfold events
        split <;> simp_all
      rw [hnil]
      exact moves_refl s
  | destroy => exact absurd rfl hx
  | handleRead c r =>
    simp only [step] at hs
    rw [events_handleRead]
    cases hc : s.entries c with
    | none =>
      simp only [hc] at hs
      cases hs
      exact moves_refl s
    | some e =>
      simp only [hc, connStep] at hs
      split at hs
      · next hp =>
        obtain ⟨x, hx, rfl⟩ := map_eq_ok hs
        simpa [hp] using handleRead_moves h halive hc hx
      · next hp =>
        cases hs
        simpa [hp] using moves_refl s
  | handleWrite c w =>
    simp only [step] at hs
    split at hs
    · next e hc =>
      simp only [connStep] at hs
      split at hs
      · obtain ⟨r, hr, rfl⟩ := map_eq_ok hs
        exact after_still halive hc rfl (congrArg StateE.rank (handleWrite_state hr))
      · cases hs
        exact moves_refl s
    · cases hs
      exact moves_refl s
  | send t c message w =>
    simp only [step] at hs
    split at hs
    · next e hc =>
      obtain ⟨r, hr, hs⟩ := bind_eq_ok hs
      exact send_still h halive hc hr hs
    · cases hs
      exact moves_refl s
  | shutdown t c =>
    simp only [step] at hs
    split at hs
    · next e hc => exact shutdown_still halive hc hs
    · cases hs
      exact moves_refl s
  | forceClose t c =>
    simp only [step] at hs
    split at hs
    · next e hc => exact forceClose_still halive hc hs
    · cases hs
      exact moves_refl s

end Steps

end TcpServer

end Dwater
