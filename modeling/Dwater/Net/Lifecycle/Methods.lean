import Dwater.Net.OutputStream
import Dwater.Net.Lifecycle.Stages

/-! # Methods of a connection and the stages of its life

A method of a connection runs on the thread of its loop, or queues a functor for it.
Most methods leave the stage as it is. `ConnectionEstablished`, `HandleClose` and
`ConnectionDestroyed` move the connection to the next one.
-/

set_option autoImplicit false
namespace Dwater

open Fallible TcpConnection

variable {ι : Type}

namespace TcpServer

section After

variable {s s₀ : TcpServer ι} {c : ℕ} {e : Entry ι} {fx : List Effect}
  {r : TcpConnection × List Effect}

theorem frame_conn {f : Frame} (h : f ∈ fx.filterMap (Effect.frame c)) :
    f.conn = some c ∧ f.rest = [] := by
  obtain ⟨x, -, hx⟩ := List.mem_filterMap.mp h
  cases x <;> cases hx <;> exact ⟨rfl, rfl⟩

theorem frames_rest : (fx.filterMap (Effect.frame c)).flatMap Frame.rest = [] := by
  rw [List.flatMap_eq_nil_iff]
  exact fun f hf => (frame_conn hf).2

theorem task_functor {t : Task} (h : t ∈ fx.filterMap (Effect.task c)) :
    ∃ f, t = .functor c f ∧ (Effect.runInLoop f ∈ fx ∨ Effect.queueInLoop f ∈ fx) := by
  obtain ⟨x, hmem, hx⟩ := List.mem_filterMap.mp h
  cases x with
  | runInLoop f =>
    cases hx
    exact ⟨f, rfl, .inl hmem⟩
  | queueInLoop f =>
    cases hx
    exact ⟨f, rfl, .inr hmem⟩
  | _ => cases hx

theorem tasks_conn : ∀ t ∈ fx.filterMap (Effect.task c), t.conn = c := by
  intro t ht
  obtain ⟨f, rfl, -⟩ := task_functor ht
  rfl

theorem tasksOf_functors : tasksOf c (fx.filterMap (Effect.task c)) = [] := by
  rw [tasksOf, List.filter_eq_nil_iff]
  intro t ht
  obtain ⟨f, rfl, -⟩ := task_functor ht
  simp [Task.isLife]

theorem removalsOf_functors : removalsOf c (fx.filterMap (Effect.task c)) = [] := by
  rw [removalsOf, List.filter_eq_nil_iff]
  intro t ht
  obtain ⟨f, rfl, -⟩ := task_functor ht
  simp [Task.isRemoval]

variable [DecidableEq ι]

theorem elsewhere_after : Elsewhere c s (s.after c e r) := by
  have h₁ : Elsewhere c s (s.setEntry c { e with conn := r.1 }) := elsewhere_setEntry
  refine (h₁.trans (elsewhere_enqueue tasks_conn)).trans (elsewhere_setStack ?_ ?_)
  · intro d hd
    rw [framesOf_append, framesOf_other (fun f hf => (frame_conn hf).1) hd, List.nil_append]
  · intro d hd _ _
    rw [List.flatMap_append, frames_rest, List.nil_append]

theorem Shape.after (h : s.Shape) (hc : s.LoopOf c e.loop)
    (ht : ∀ f, Effect.runInLoop f ∈ r.2 ∨ Effect.queueInLoop f ∈ r.2 → Callable f)
    (hf : ∀ f ∈ (r.2.filterMap (Effect.frame c) ++ s.stack e.loop).tail, f.isCallback = false) :
    (s.after c e r).Shape := by
  have h₁ : (s.setEntry c { e with conn := r.1 }).Shape := h.setEntry hc
  have hl : (s.setEntry c { e with conn := r.1 }).LoopOf c e.loop :=
    ⟨_, Function.update_self .., rfl⟩
  have h₂ : ((s.setEntry c { e with conn := r.1 }).enqueue e.loop
      (r.2.filterMap (Effect.task c))).Shape := by
    refine h₁.enqueue fun t htask => ?_
    obtain ⟨f, rfl, hmem⟩ := task_functor htask
    exact ⟨hl, ht f hmem⟩
  refine h₂.setStack (fun f hmem => ?_) hf fun hp hb => ?_
  · rcases List.mem_append.mp hmem with hmem | hmem
    · have hconn := (frame_conn hmem).1
      cases f with
      | destroying rest => cases hconn
      | _ =>
        cases hconn
        exact hl
    · exact h₂.frames _ f hmem
  · intro f hmem
    rcases List.mem_append.mp hmem with hmem | hmem
    · simp [(frame_conn hmem).1]
    · exact h₂.undoomed hp f (hb ▸ hmem)

/-- A method of connection `c` keeps the invariant if it takes `c` to a stage. -/
theorem Inv.after (h : s₀.Inv) (st : Stage) (he : Elsewhere c s₀ s) (hs : s.Shape)
    (hc : s.LoopOf c e.loop)
    (ht : ∀ f, Effect.runInLoop f ∈ r.2 ∨ Effect.queueInLoop f ∈ r.2 → Callable f)
    (hf : ∀ f ∈ (r.2.filterMap (Effect.frame c) ++ s.stack e.loop).tail, f.isCallback = false)
    (hlog : e.log = st.log)
    (hframes : r.2.filterMap (Effect.frame c) ++ framesOf c (s.stack e.loop) = st.frames c)
    (htasks : tasksOf c (s.queue e.loop) = st.tasks c)
    (hrem : removalsOf c (s.queue s.base) = st.removals c)
    (hheld : s.held.count c = st.held)
    (hforce : s.Forced c e.loop ∨ Effect.runInLoop .forceCloseInLoop ∈ r.2 ∨
      Effect.queueInLoop .forceCloseInLoop ∈ r.2 → Leaving r.1)
    (hfit : st.Fits (s.phase = .alive) (e.loop = s.base) r.1)
    (hin : r.1.inputBuffer.Inv) (hout : r.1.outputBuffer.Inv) : (s.after c e r).Inv := by
  suffices hm : (s.after c e r).Matches c { e with conn := r.1 } st from
    h.of_elsewhere (hs.after hc ht hf) (he.trans elsewhere_after) (Function.update_self ..) hm
  have hq : ∀ i, ∃ us, (s.after c e r).queue i = s.queue i ++ us ∧ tasksOf c us = [] ∧
      removalsOf c us = [] := by
    intro i
    by_cases hi : i = e.loop
    · subst hi
      refine ⟨_, Function.update_self .., tasksOf_functors, removalsOf_functors⟩
    · exact ⟨[], by simp [TcpServer.after, setStack, enqueue, TcpServer.setEntry, hi], rfl, rfl⟩
  constructor
  · exact hlog
  · have hst : (s.after c e r).stack e.loop =
        r.2.filterMap (Effect.frame c) ++ s.stack e.loop := Function.update_self ..
    rw [hst, framesOf_append, framesOf_self fun f hf => (frame_conn hf).1]
    exact hframes
  · obtain ⟨us, hus, ht, -⟩ := hq e.loop
    rw [hus, tasksOf_append, ht, List.append_nil]
    exact htasks
  · obtain ⟨us, hus, -, hr⟩ := hq s.base
    have hb : (s.after c e r).base = s.base := rfl
    rw [hb, hus, removalsOf_append, hr, List.append_nil]
    exact hrem
  · have hh : (s.after c e r).held = s.held := by
      unfold held
      by_cases hb : s.base = e.loop
      · simp [TcpServer.after, setStack, enqueue, TcpServer.setEntry, hb, frames_rest]
      · simp [TcpServer.after, setStack, enqueue, TcpServer.setEntry, hb]
    rw [hh]
    exact hheld
  · intro hf
    simp only [Forced, TcpServer.after, setStack, enqueue, TcpServer.setEntry,
      Function.update_self, List.mem_append] at hf
    rcases hf with hf | hf
    · exact hforce (.inl hf)
    · obtain ⟨f, heq, hmem⟩ := task_functor hf
      cases heq
      exact hforce (.inr hmem)
  · exact hfit
  · exact hin
  · exact hout

end After

section Methods

variable {s : TcpServer ι} {c : ℕ} {e : Entry ι} {st : Stage} {alive own : Prop}
  {conn conn' : TcpConnection} {r : TcpConnection × List Effect}

/-- A stage fits as long as the state and the interest in reading stay, and the channel of a
disconnected connection is left alone. -/
theorem fits_congr (h : st.Fits alive own conn) (hs : conn'.state = conn.state)
    (hr : conn'.channel.isReading = conn.channel.isReading)
    (hd : conn.state = .kdisconnected → conn'.channel = conn.channel) :
    st.Fits alive own conn' := by
  cases st with
  | waiting d => exact ⟨hs.trans h.1, hr.trans h.2.1, h.2.2⟩
  | opening d => exact ⟨by rw [hs]; exact h.1, h.2⟩
  | opened d => exact ⟨by rw [hs]; exact h.1, h.2⟩
  | closing | leaving | removing => exact ⟨h.1, hs.trans h.2.1, by rw [hd h.2.1]; exact h.2.2⟩
  | condemned | ending | parting | gone => exact ⟨hs.trans h.1, by rw [hd h.1]; exact h.2⟩

theorem Matches.open_of_state (h : s.Matches c e st)
    (hs : e.conn.state = .kconnected ∨ e.conn.state = .kdisconnecting) :
    ∃ doomed, st = .opening doomed ∨ st = .opened doomed := by
  have hf := h.fits
  cases st with
  | opening d => exact ⟨d, .inl rfl⟩
  | opened d => exact ⟨d, .inr rfl⟩
  | waiting d =>
    have := hf.1
    simp_all
  | closing | leaving | removing =>
    have := hf.2.1
    simp_all
  | condemned | ending | parting | gone =>
    have := hf.1
    simp_all

theorem Matches.opened_of_state (h : s.Matches c e st) (hstack : s.stack e.loop = [])
    (hs : e.conn.state = .kconnected ∨ e.conn.state = .kdisconnecting) :
    ∃ doomed, st = .opened doomed := by
  obtain ⟨doomed, rfl | rfl⟩ := h.open_of_state hs
  · have hf := h.frames_eq
    rw [hstack] at hf
    cases hf
  · exact ⟨doomed, rfl⟩

variable [DecidableEq ι]

theorem Inv.quiet (h : s.Inv) (hc : s.entries c = some e) (hm : s.Matches c e st)
    (hr : r.2.filterMap (Effect.frame c) = [])
    (ht : ∀ f, Effect.runInLoop f ∈ r.2 ∨ Effect.queueInLoop f ∈ r.2 → Callable f)
    (hforce : Effect.runInLoop .forceCloseInLoop ∈ r.2 ∨
      Effect.queueInLoop .forceCloseInLoop ∈ r.2 → Leaving r.1)
    (hleave : Leaving e.conn → Leaving r.1)
    (hfit : st.Fits (s.phase = .alive) (e.loop = s.base) r.1)
    (hin : r.1.inputBuffer.Inv) (hout : r.1.outputBuffer.Inv) : (s.after c e r).Inv := by
  refine h.after st (.refl c s) h.shape ⟨e, hc, rfl⟩ ht ?_ hm.log_eq ?_ hm.tasks_eq hm.removals_eq
    hm.held_eq ?_ hfit hin hout
  · rw [hr, List.nil_append]
    exact h.shape.shallow e.loop
  · rw [hr, List.nil_append]
    exact hm.frames_eq
  · rintro (hf | hf)
    · exact hleave (hm.forced hf)
    · exact hforce hf

theorem Inv.steady (h : s.Inv) (hc : s.entries c = some e)
    (hr : ∀ x ∈ r.2, Effect.IsOutput x ∨ x = .shutdownWrite ∨ x = .messageCallback ∨
      (∃ message, x = .runInLoop (.sendInLoop message)) ∨ x = .runInLoop .shutdownInLoop)
    (hs : r.1.state = e.conn.state)
    (hread : r.1.channel.isReading = e.conn.channel.isReading)
    (hd : e.conn.state = .kdisconnected → r.1.channel = e.conn.channel)
    (hin : r.1.inputBuffer.Inv) (hout : r.1.outputBuffer.Inv) : (s.after c e r).Inv := by
  obtain ⟨st, hm⟩ := h.life c e hc
  have hno : Effect.runInLoop .forceCloseInLoop ∉ r.2 ∧
      Effect.queueInLoop .forceCloseInLoop ∉ r.2 := by
    constructor
    · intro hmem
      simpa [Effect.IsOutput] using hr _ hmem
    · intro hmem
      simpa [Effect.IsOutput] using hr _ hmem
  refine h.quiet hc hm ?_ ?_ ?_ ?_ (fits_congr hm.fits hs hread hd) hin hout
  · rw [List.filterMap_eq_nil_iff]
    intro x hx
    rcases hr x hx with ho | rfl | rfl | ⟨message, rfl⟩ | rfl
    · cases x with
      | write | queueInLoop => rfl
      | _ => exact ho.elim
    all_goals rfl
  · rintro f (hf | hf)
    · rcases hr _ hf with ho | ho | ho | ⟨message, ho⟩ | ho
      · exact ho.elim
      all_goals cases ho
      all_goals exact ⟨by simp, by simp⟩
    · rcases hr _ hf with ho | ho | ho | ⟨message, ho⟩ | ho
      · cases f with
        | writeCompleteCallback | highWaterMarkCallback => exact ⟨by simp, by simp⟩
        | _ => exact ho.elim
      all_goals cases ho
  · rintro (hf | hf)
    · exact absurd hf hno.1
    · exact absurd hf hno.2
  · rw [Leaving, Leaving, hs]
    exact id

theorem sendInLoop_inv {message : List Byte} {w : WriteResult} (h : s.Inv)
    (hc : s.entries c = some e) : Yields (s.after c e <$> e.conn.sendInLoop message w) Inv := by
  obtain ⟨st, hm⟩ := h.life c e hc
  by_cases hs : e.conn.state = .kdisconnected
  · have heq : e.conn.sendInLoop message w = .ok (e.conn, []) := by
      unfold sendInLoop
      rw [if_pos hs]
      rfl
    rw [heq]
    exact yields_ok.mpr (h.steady hc (by simp) rfl rfl (fun _ => rfl) hm.input hm.output)
  · refine yields_map (sendInLoop_yields hm.output.represents hs) fun r hr => ?_
    obtain ⟨q', hq', -⟩ := hr.backlog
    refine h.steady hc (fun x hx => .inl (hr.output x hx)) hr.state_eq hr.isReading_eq
      (fun hd => absurd hd hs) ?_ hq'.1
    rw [hr.input_eq]
    exact hm.input

theorem shutdownInLoop_steady (h : s.Inv) (hc : s.entries c = some e) :
    (s.after c e (e.conn, e.conn.shutdownInLoop)).Inv := by
  obtain ⟨st, hm⟩ := h.life c e hc
  refine h.steady hc ?_ rfl rfl (fun _ => rfl) hm.input hm.output
  intro x hx
  unfold shutdownInLoop at hx
  split at hx
  · cases hx
  · rw [List.mem_singleton.mp hx]
    exact .inr (.inl rfl)

theorem handleClose_inv (h : s.Inv) (hc : s.entries c = some e) (hstack : s.stack e.loop = [])
    (halive : s.phase = .alive) (hs : conn.state = e.conn.state)
    (hopen : e.conn.state = .kconnected ∨ e.conn.state = .kdisconnecting)
    (hin : conn.inputBuffer.Inv) (hout : conn.outputBuffer.Inv) :
    Yields (s.after c e <$> conn.handleClose) Inv := by
  obtain ⟨st, hm⟩ := h.life c e hc
  obtain ⟨doomed, rfl⟩ := hm.opened_of_state hstack hopen
  have hd : doomed = false := by
    cases doomed with
    | false => rfl
    | true => exact absurd halive (hm.fits.2 rfl)
  subst hd
  unfold handleClose
  rw [check_bind_of_true (hs ▸ hopen)]
  refine yields_pure.mpr (h.after .closing (.refl c s) h.shape ⟨e, hc, rfl⟩ ?_ ?_ hm.log_eq ?_
    hm.tasks_eq hm.removals_eq hm.held_eq (fun _ => .inr rfl) ⟨halive, rfl, ?_⟩ hin hout)
  · intro f hf
    simp at hf
  · rw [hstack]
    intro f hf
    have hf' : f = .closeCallback c := by simpa [Effect.frame] using hf
    rw [hf']
    rfl
  · rw [hstack]
    rfl
  · exact Channel.isNoneEvent_disableAll _

end Methods

section Steps

variable {s : TcpServer ι} {c : ℕ} {e : Entry ι} {st : Stage} {i : ι} {frames : List Frame}
  {tasks : List Task}

theorem tasksOf_tail {t : Task} (hm : s.Matches c e st) (hq : s.queue e.loop = t :: tasks)
    (hl : t.isLife = true) (ht : t.conn = c) : t :: tasksOf c tasks = st.tasks c := by
  have h := hm.tasks_eq
  rwa [hq, tasksOf_cons, if_pos ⟨hl, ht⟩] at h

variable [DecidableEq ι]

theorem Inv.dequeue_functor {f : Functor} (h : s.Inv) (hq : s.queue i = .functor c f :: tasks)
    (hc : s.entries c = some e) :
    Inv { s with queue := Function.update s.queue i tasks } := by
  obtain ⟨st, hm⟩ := h.life c e hc
  have hview : ∀ j, tasksOf c (Function.update s.queue i tasks j) = tasksOf c (s.queue j) ∧
      removalsOf c (Function.update s.queue i tasks j) = removalsOf c (s.queue j) ∧
      ∀ t ∈ Function.update s.queue i tasks j, t ∈ s.queue j := by
    intro j
    by_cases hj : j = i
    · subst hj
      rw [Function.update_self, hq]
      exact ⟨by simp [tasksOf_cons, Task.isLife], by simp [removalsOf_cons, Task.isRemoval],
        fun t ht => List.mem_cons_of_mem _ ht⟩
    · rw [Function.update_of_ne hj]
      exact ⟨rfl, rfl, fun _ ht => ht⟩
  refine h.of_elsewhere (h.shape.dequeue hq) (elsewhere_dequeue hq) hc
    ⟨hm.log_eq, hm.frames_eq, ?_, ?_, hm.held_eq, ?_, hm.fits, hm.input, hm.output⟩
  · exact (hview _).1.trans hm.tasks_eq
  · exact (hview _).2.1.trans hm.removals_eq
  · exact fun hf => hm.forced ((hview _).2.2 _ hf)

theorem removalsOf_dequeue {t : Task} (hq : s.queue i = t :: tasks) (hr : t.isRemoval = false)
    (j : ι) : removalsOf c (Function.update s.queue i tasks j) = removalsOf c (s.queue j) := by
  by_cases hj : j = i
  · subst hj
    rw [Function.update_self, hq, removalsOf_cons, if_neg (by simp [hr])]
  · rw [Function.update_of_ne hj]

theorem forced_dequeue {t : Task} (hq : s.queue i = t :: tasks)
    (hf : .functor c .forceCloseInLoop ∈ Function.update s.queue i tasks i) : s.Forced c i := by
  rw [Function.update_self] at hf
  rw [Forced, hq]
  exact List.mem_cons_of_mem _ hf

theorem established_inv (h : s.Inv) (hstack : s.stack e.loop = [])
    (hq : s.queue e.loop = .connectionEstablished c :: tasks) (hc : s.entries c = some e) :
    Yields (connectionEstablished { s with queue := Function.update s.queue e.loop tasks } c e)
      Inv := by
  obtain ⟨st, hm⟩ := h.life c e hc
  have htail := tasksOf_tail hm hq rfl rfl
  obtain ⟨doomed, rfl⟩ : ∃ doomed, st = .waiting doomed := by
    cases st with
    | waiting d => exact ⟨d, rfl⟩
    | opening d | opened d => cases d <;> cases htail
    | _ => cases htail
  unfold connectionEstablished TcpConnection.connectionEstablished
  rw [check_bind_of_true hm.fits.1]
  refine yields_pure.mpr (h.after (.opening doomed) (elsewhere_dequeue hq) (h.shape.dequeue hq)
    ⟨e, hc, rfl⟩ ?_ ?_ ?_ ?_ ?_ ?_ ?_ ?_ ⟨.inl rfl, hm.fits.2.2.1⟩ hm.input hm.output)
  · intro f hf
    simp at hf
  · intro f hf
    simp [hstack, Effect.frame] at hf
  · rw [hm.log_eq]
    rfl
  · rw [show framesOf c (s.stack e.loop) = [] by rw [hstack]; rfl]
    rfl
  · have hts : tasksOf c (Function.update s.queue e.loop tasks e.loop) = tasksOf c tasks := by
      rw [Function.update_self]
    refine hts.trans ?_
    cases doomed with
    | false => exact (List.cons.inj htail).2
    | true => exact (List.cons.inj htail).2
  · exact (removalsOf_dequeue hq rfl _).trans hm.removals_eq
  · cases doomed with
    | false => exact hm.held_eq
    | true => exact hm.held_eq
  · rintro (hf | hf | hf)
    · have := hm.forced (forced_dequeue hq hf)
      rw [Leaving, hm.fits.1] at this
      simp at this
    · simp at hf
    · simp at hf

theorem connectionDestroyed_inv {s₀ : TcpServer ι} (h : s₀.Inv) (he : Elsewhere c s₀ s)
    (hs : s.Shape) (hc : s.LoopOf c e.loop) (hstate : e.conn.state = .kconnected)
    (hlog : e.log = [.established, .up]) (hframes : framesOf c (s.stack e.loop) = [])
    (hshallow : ∀ f ∈ s.stack e.loop, f.isCallback = false)
    (htasks : tasksOf c (s.queue e.loop) = []) (hrem : removalsOf c (s.queue s.base) = [])
    (hheld : s.held.count c = 0) (hin : e.conn.inputBuffer.Inv)
    (hout : e.conn.outputBuffer.Inv) : (s.connectionDestroyed c e).Inv := by
  have hr : e.conn.connectionDestroyed =
      ({ e.conn.setState .kdisconnected with channel := e.conn.channel.disableAll },
        [.connectionCallback false, .removeChannel]) := by
    simp [TcpConnection.connectionDestroyed, hstate, setState, connected]
  unfold connectionDestroyed
  rw [hr]
  refine h.after .ending he hs hc ?_ ?_ hlog ?_ htasks hrem hheld (fun _ => .inr rfl)
    ⟨rfl, Channel.isNoneEvent_disableAll _⟩ hin hout
  · intro f hf
    simp at hf
  · intro f hf
    rcases List.mem_cons.mp (show f ∈ .removeChannel c :: s.stack e.loop from hf) with rfl | hf
    · rfl
    · exact hshallow f hf
  · rw [hframes]
    rfl

theorem destroyed_inv (h : s.Inv) (hstack : s.stack e.loop = [])
    (hq : s.queue e.loop = .connectionDestroyed c :: tasks) (hc : s.entries c = some e) :
    (connectionDestroyed { s with queue := Function.update s.queue e.loop tasks } c e).Inv := by
  obtain ⟨st, hm⟩ := h.life c e hc
  have htail := tasksOf_tail hm hq rfl rfl
  have hframes : framesOf c (s.stack e.loop) = [] := by rw [hstack]; rfl
  have hst : st = .opened true ∨ st = .condemned := by
    have hf := hm.frames_eq.symm.trans hframes
    cases st with
    | waiting d => cases d <;> cases htail
    | opened d =>
      cases d with
      | false => cases htail
      | true => exact .inl rfl
    | condemned => exact .inr rfl
    | opening d => cases hf
    | _ => cases htail
  have htasks : tasksOf c (Function.update s.queue e.loop tasks e.loop) = [] := by
    rw [Function.update_self]
    rcases hst with rfl | rfl
    · exact (List.cons.inj htail).2
    · exact (List.cons.inj htail).2
  have hrem := (removalsOf_dequeue (c := c) hq rfl s.base).trans hm.removals_eq
  rcases hst with rfl | rfl
  · have hs : e.conn.state = .kconnected := by
      rcases hm.fits.1 with hs | ⟨ha, -⟩
      · exact hs
      · exact absurd ha (hm.fits.2 rfl)
    exact connectionDestroyed_inv h (elsewhere_dequeue hq) (h.shape.dequeue hq) ⟨e, hc, rfl⟩ hs
      hm.log_eq hframes (by simp [hstack]) htasks hrem hm.held_eq hm.input hm.output
  · have hs : e.conn.state = .kdisconnected := hm.fits.1
    have hr : e.conn.connectionDestroyed = (e.conn, [.removeChannel]) := by
      simp [TcpConnection.connectionDestroyed, hs]
    unfold connectionDestroyed
    rw [hr]
    refine h.after .parting (elsewhere_dequeue hq) (h.shape.dequeue hq) ⟨e, hc, rfl⟩ ?_ ?_
      hm.log_eq ?_ htasks hrem hm.held_eq (fun _ => .inr hs) hm.fits hm.input hm.output
    · intro f hf
      simp at hf
    · intro f hf
      simp [hstack, Effect.frame] at hf
    · rw [show framesOf c (s.stack e.loop) = [] from hframes]
      rfl

end Steps

end TcpServer

end Dwater
