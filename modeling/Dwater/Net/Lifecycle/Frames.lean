import Dwater.Net.Lifecycle.Methods

/-! # Callbacks and the server's part in a life

What waits on the stack of a thread goes on once the user's callback has returned: the
close callback hands the connection to the server, which lets it go and queues its end,
and `~TcpServer` goes through the connections it still lists.
-/

set_option autoImplicit false
namespace Dwater

open Fallible TcpConnection

variable {ι : Type}

namespace TcpServer

section Frames

variable {s s₀ : TcpServer ι} {c : ℕ} {e e' : Entry ι} {st : Stage} {i : ι} {f : Frame}
  {frames : List Frame} {tasks : List Task}

theorem Inv.frame_entry (h : s.Inv) (hst : s.stack i = f :: frames) (hf : f.conn = some c) :
    ∃ e st, s.entries c = some e ∧ e.loop = i ∧ s.Matches c e st ∧
      f :: framesOf c frames = st.frames c := by
  have hp := h.shape.frames i f (hst ▸ List.mem_cons_self)
  have hl : s.LoopOf c i := by
    cases f with
    | destroying rest => cases hf
    | _ =>
      cases hf
      exact hp
  obtain ⟨e, hc, rfl⟩ := hl
  obtain ⟨st, hm⟩ := h.life c e hc
  refine ⟨e, st, hc, rfl, hm, ?_⟩
  have hfr := hm.frames_eq
  rwa [hst, framesOf_cons, if_pos hf] at hfr

variable [DecidableEq ι]

theorem elsewhere_pop (hst : s.stack i = f :: frames) (hf : f.conn = some c) :
    Elsewhere c s (s.setStack i frames) := by
  refine elsewhere_setStack (fun d hd => ?_) fun d _ _ _ => ?_
  · rw [hst, framesOf_cons, if_neg (by simp [hf, Ne.symm hd])]
  · rw [hst, List.flatMap_cons, Frame.rest_of_conn (by simp [hf]), List.nil_append]

theorem Shape.pop (h : s.Shape) (hst : s.stack i = f :: frames) : (s.setStack i frames).Shape := by
  have hsub : ∀ g ∈ frames, g ∈ s.stack i := fun g hg => hst ▸ List.mem_cons_of_mem _ hg
  refine h.setStack (fun g hg => h.frames i g (hsub g hg)) (fun g hg => ?_) fun hp hb g hg => ?_
  · refine h.shallow i g ?_
    rw [hst]
    exact List.mem_of_mem_tail hg
  · exact h.undoomed hp g (hb ▸ hsub g hg)

theorem held_pop (hst : s.stack i = f :: frames) (hf : f.conn = some c) :
    (s.setStack i frames).held = s.held := by
  unfold held
  by_cases hb : s.base = i
  · subst hb
    simp [setStack, hst, Frame.rest_of_conn (show f.conn ≠ none by simp [hf])]
  · simp [setStack, hb]

theorem Inv.pop (h : s.Inv) (hc : s.entries c = some e) (hm : s.Matches c e st)
    (hst : s.stack e.loop = f :: frames) (hf : f.conn = some c) (hl : e'.loop = e.loop)
    (st' : Stage) (hlog : e'.log = st'.log) (hframes : framesOf c frames = st'.frames c)
    (htasks : st'.tasks c = st.tasks c) (hrem : st'.removals c = st.removals c)
    (hheld : st'.held = st.held) (hleave : Leaving e.conn → Leaving e'.conn)
    (hfit : st'.Fits (s.phase = .alive) (e.loop = s.base) e'.conn)
    (hin : e'.conn.inputBuffer.Inv) (hout : e'.conn.outputBuffer.Inv) :
    ((s.setStack e.loop frames).setEntry c e').Inv := by
  suffices hm' : ((s.setStack e.loop frames).setEntry c e').Matches c e' st' from
    h.of_elsewhere ((h.shape.pop hst).setEntry ⟨e, hc, hl.symm⟩)
      ((elsewhere_pop hst hf).trans elsewhere_setEntry) (Function.update_self ..) hm'
  constructor
  · exact hlog
  · have hstack : ((s.setStack e.loop frames).setEntry c e').stack e.loop = frames := by
      simp [setStack, setEntry]
    rw [hl, hstack, hframes]
  · rw [hl, htasks]
    exact hm.tasks_eq
  · rw [hrem]
    exact hm.removals_eq
  · rw [hheld, ← hm.held_eq]
    exact congrArg (List.count c) (held_pop hst hf)
  · rw [hl]
    exact fun hf => hleave (hm.forced hf)
  · rw [hl]
    exact hfit
  · exact hin
  · exact hout

omit [DecidableEq ι] in
theorem record_eq {x : LifeEvent} (hc : s.entries c = some e) :
    s.record c x = s.setEntry c { e with log := e.log ++ [x] } := by
  simp [record, hc]

theorem connectionCallback_inv {b : Bool} (h : s.Inv)
    (hst : s.stack i = .connectionCallback c b :: frames) :
    ((s.setStack i frames).record c (if b then .up else .down)).Inv := by
  obtain ⟨e, st, hc, rfl, hm, hfr⟩ := h.frame_entry hst rfl
  rw [record_eq (show (s.setStack e.loop frames).entries c = some e from hc)]
  cases st with
  | opening d =>
    obtain ⟨hb, htl⟩ := List.cons.inj hfr
    cases hb
    refine h.pop hc hm hst rfl rfl (.opened d) ?_ htl ?_ rfl ?_ id hm.fits hm.input hm.output
    · rw [hm.log_eq]
      rfl
    · cases d <;> rfl
    · cases d <;> rfl
  | closing =>
    obtain ⟨hb, htl⟩ := List.cons.inj hfr
    cases hb
    refine h.pop hc hm hst rfl rfl .leaving ?_ htl rfl rfl rfl id hm.fits hm.input hm.output
    rw [hm.log_eq]
    rfl
  | ending =>
    obtain ⟨hb, htl⟩ := List.cons.inj hfr
    cases hb
    refine h.pop hc hm hst rfl rfl .parting ?_ htl rfl rfl rfl id hm.fits hm.input hm.output
    rw [hm.log_eq]
    rfl
  | _ => cases hfr

theorem removeChannel_inv (h : s.Inv) (hst : s.stack i = .removeChannel c :: frames) :
    Yields (s.proceed i) Inv := by
  obtain ⟨e, st, hc, rfl, hm, hfr⟩ := h.frame_entry hst rfl
  have hst' : st = .parting := by
    cases st with
    | parting => rfl
    | _ => cases hfr
  subst hst'
  have hconn : e.conn.removeChannel =
      .ok { e.conn with channel := { e.conn.channel with addedToLoop := false } } := by
    unfold TcpConnection.removeChannel Channel.remove
    rw [check_bind_of_true hm.fits.2]
    rfl
  have hstep : s.proceed e.loop = .ok ((s.setStack e.loop frames).setEntry c
      { e with
        conn := { e.conn with channel := { e.conn.channel with addedToLoop := false } }
        log := e.log ++ [.destroyed] }) := by
    simp only [proceed, hst, hc, hconn]
    refine congrArg Except.ok ?_
    rw [record_eq (Function.update_self ..)]
    simp [setEntry]
  rw [hstep]
  refine yields_ok.mpr (h.pop hc hm hst rfl rfl .gone ?_ ?_ rfl rfl rfl id hm.fits hm.input
    hm.output)
  · rw [hm.log_eq]
    rfl
  · exact (List.cons.inj hfr).2

omit [DecidableEq ι] in
theorem elsewhere_erase (halive : s.phase = .alive) :
    Elsewhere c s { s with connections := s.connections.erase c } := by
  refine ⟨fun _ _ => rfl, fun _ _ _ => rfl, fun _ _ _ => rfl, fun _ _ _ => rfl,
    fun d hd => ?_, fun _ _ _ hf => hf, rfl, rfl⟩
  simp only [held, halive, if_true]
  exact List.count_erase_of_ne hd

theorem removeConnectionInLoop_inv (h : s₀.Inv) (he : Elsewhere c s₀ s) (hs : s.Shape)
    (hc : s.entries c = some e) (halive : s.phase = .alive) (hlog : e.log = Stage.condemned.log)
    (hframes : framesOf c (s.stack e.loop) = []) (htasks : tasksOf c (s.queue e.loop) = [])
    (hrem : removalsOf c (s.queue s.base) = []) (hheld : s.held.count c = 1)
    (hfit : e.conn.state = .kdisconnected ∧ e.conn.channel.isNoneEvent = true)
    (hin : e.conn.inputBuffer.Inv) (hout : e.conn.outputBuffer.Inv) :
    Yields (s.removeConnectionInLoop c) Inv := by
  have hcount : s.connections.count c = 1 := by
    simpa only [held, halive, if_true] using hheld
  have hmem : c ∈ s.connections := List.count_pos_iff.mp (by omega)
  unfold removeConnectionInLoop
  rw [check_bind_of_true (by rw [halive]; decide), check_bind_of_true hmem]
  simp only [hc]
  have he₁ : Elsewhere c s { s with connections := s.connections.erase c } :=
    elsewhere_erase halive
  have hs₁ : Shape { s with connections := s.connections.erase c } :=
    ⟨fun j f hf => (hs.frames j f hf).mono (fun _ _ h => h) rfl,
      fun j t ht => (hs.tasks j t ht).mono (fun _ _ h => h) rfl, hs.shallow, hs.undoomed, hs.unborn⟩
  have hone : ∀ t ∈ [Task.connectionDestroyed c], t.conn = c := by simp [Task.conn]
  suffices hm : (enqueue { s with connections := s.connections.erase c } e.loop
      [.connectionDestroyed c]).Matches c e .condemned by
    refine yields_pure.mpr (h.of_elsewhere (hs₁.enqueue ?_)
      ((he.trans he₁).trans (elsewhere_enqueue hone)) hc hm)
    intro t ht
    rw [List.mem_singleton.mp ht]
    exact ⟨e, hc, rfl⟩
  constructor
  · exact hlog
  · exact hframes
  · simp [enqueue, htasks, tasksOf_cons, Task.isLife, Task.conn, Stage.tasks]
  · by_cases hb : s.base = e.loop
    · simp [enqueue, ← hb, hrem, removalsOf_cons, Task.isRemoval, Stage.removals]
    · simp [enqueue, hb, hrem, Stage.removals]
  · simp [held, enqueue, halive, List.count_erase_self, hcount, Stage.held]
  · exact fun _ => .inr hfit.1
  · exact hfit
  · exact hin
  · exact hout

theorem closeCallback_inv (h : s.Inv) (hst : s.stack i = .closeCallback c :: frames) :
    Yields ((s.setStack i frames).removeConnection i c) Inv := by
  obtain ⟨e, st, hc, rfl, hm, hfr⟩ := h.frame_entry hst rfl
  have hst' : st = .leaving := by
    cases st with
    | leaving => rfl
    | _ => cases hfr
  subst hst'
  have halive : s.phase = .alive := hm.fits.1
  have hframes : framesOf c ((s.setStack e.loop frames).stack e.loop) = [] := by
    refine (congrArg (framesOf c) (Function.update_self e.loop frames s.stack)).trans ?_
    exact (List.cons.inj hfr).2
  have hheld : (s.setStack e.loop frames).held.count c = 1 := by
    rw [held_pop hst rfl]
    exact hm.held_eq
  unfold removeConnection
  rw [check_bind_of_true (show (s.setStack e.loop frames).phase ≠ .dead by
    rw [show (s.setStack e.loop frames).phase = .alive from halive]; decide)]
  split
  · exact removeConnectionInLoop_inv h (elsewhere_pop hst rfl) (h.shape.pop hst) hc halive
      hm.log_eq hframes hm.tasks_eq hm.removals_eq hheld hm.fits.2 hm.input hm.output
  · next hb =>
    have hone : ∀ t ∈ [Task.removeConnectionInLoop c], t.conn = c := by simp [Task.conn]
    have hbase : e.loop ≠ s.base := hb
    suffices hm' : ((s.setStack e.loop frames).enqueue s.base
        [.removeConnectionInLoop c]).Matches c e .removing by
      refine yields_pure.mpr (h.of_elsewhere ((h.shape.pop hst).enqueue ?_)
        ((elsewhere_pop hst rfl).trans (elsewhere_enqueue hone)) hc hm')
      intro t ht
      rw [List.mem_singleton.mp ht]
      exact ⟨rfl, e.loop, e, hc, rfl⟩
    constructor
    · exact hm.log_eq
    · exact hframes
    · have ht := hm.tasks_eq
      simp only [Stage.tasks] at ht
      simp [enqueue, hbase, setStack, ht, Stage.tasks]
    · have hr := hm.removals_eq
      simp only [Stage.removals] at hr
      simp [enqueue, setStack, hr, removalsOf_cons, Task.isRemoval, Task.conn, Stage.removals]
    · exact hheld
    · exact fun _ => .inr hm.fits.2.1
    · exact hm.fits
    · exact hm.input
    · exact hm.output

theorem removal_inv (h : s.Inv) (hq : s.queue i = .removeConnectionInLoop c :: tasks) :
    Yields (removeConnectionInLoop { s with queue := Function.update s.queue i tasks } c) Inv := by
  obtain ⟨rfl, j, e, hc, rfl⟩ := h.shape.tasks i _ (hq ▸ List.mem_cons_self)
  obtain ⟨st, hm⟩ := h.life c e hc
  have hr := hm.removals_eq
  rw [hq, removalsOf_cons, if_pos ⟨rfl, rfl⟩] at hr
  have hst : st = .removing := by
    cases st with
    | removing => rfl
    | _ => cases hr
  subst hst
  have htasks : tasksOf c (Function.update s.queue s.base tasks e.loop) = [] := by
    by_cases hb : e.loop = s.base
    · have ht := hm.tasks_eq
      rw [hb, hq, tasksOf_cons, if_neg (by simp [Task.isLife])] at ht
      rw [hb, Function.update_self]
      exact ht
    · rw [Function.update_of_ne hb]
      exact hm.tasks_eq
  refine removeConnectionInLoop_inv h (elsewhere_dequeue hq) (h.shape.dequeue hq) hc hm.fits.1
    hm.log_eq hm.frames_eq htasks ?_ hm.held_eq hm.fits.2 hm.input hm.output
  have hu : removalsOf c (Function.update s.queue s.base tasks s.base) = removalsOf c tasks := by
    rw [Function.update_self]
  exact hu.trans (List.cons.inj hr).2

end Frames

section Server

variable {s : TcpServer ι} {c : ℕ} {e : Entry ι} {i : ι} {frames : List Frame} {rest : List ℕ}

theorem framesOf_unborn (h : s.Shape) (hc : s.entries c = none) : framesOf c (s.stack i) = [] := by
  rw [framesOf, List.filter_eq_nil_iff]
  intro f hf
  have hp := h.frames i f hf
  cases f with
  | destroying rest => simp [Frame.conn]
  | _ d =>
    obtain ⟨e, he, -⟩ := hp
    intro heq
    cases of_decide_eq_true heq
    rw [hc] at he
    cases he

theorem conn_ne_of_unborn (h : s.Shape) (hc : s.entries c = none) {t : Task}
    (ht : t ∈ s.queue i) : t.conn ≠ c := by
  rintro rfl
  have hp := h.tasks i t ht
  cases t with
  | removeConnectionInLoop d =>
    obtain ⟨-, j, e, he, -⟩ := hp
    exact absurd (hc.symm.trans he) (by simp)
  | functor d f =>
    obtain ⟨⟨e, he, -⟩, -⟩ := hp
    exact absurd (hc.symm.trans he) (by simp)
  | _ d =>
    obtain ⟨e, he, -⟩ := hp
    exact absurd (hc.symm.trans he) (by simp)

theorem tasksOf_unborn (h : s.Shape) (hc : s.entries c = none) : tasksOf c (s.queue i) = [] := by
  rw [tasksOf, List.filter_eq_nil_iff]
  intro t ht
  simp [conn_ne_of_unborn h hc ht]

theorem removalsOf_unborn (h : s.Shape) (hc : s.entries c = none) :
    removalsOf c (s.queue i) = [] := by
  rw [removalsOf, List.filter_eq_nil_iff]
  intro t ht
  simp [conn_ne_of_unborn h hc ht]

theorem not_forced_of_unborn (h : s.Shape) (hc : s.entries c = none) : ¬ s.Forced c i :=
  fun hf => conn_ne_of_unborn h hc hf rfl

/-- A connection that the destructor has not let go is not being closed. -/
theorem Matches.of_held {st : Stage} (hm : s.Matches c e st) (hp : s.phase ≠ .alive)
    (hh : s.held.count c = 1) :
    st = .waiting false ∨ st = .opening false ∨ st = .opened false := by
  have hst := hm.held_eq.symm.trans hh
  have hf := hm.fits
  cases st with
  | waiting d => cases d <;> simp_all [Stage.held]
  | opening d => cases d <;> simp_all [Stage.held]
  | opened d => cases d <;> simp_all [Stage.held]
  | closing | leaving | removing => exact absurd hf.1 hp
  | _ => cases hst

theorem new_yields (sockfd : ℕ) : Yields (TcpConnection.new sockfd) fun conn =>
    conn.state = .kconnecting ∧ conn.channel.isReading = false ∧ conn.inputBuffer.Inv ∧
      conn.outputBuffer.Inv := by
  unfold TcpConnection.new
  refine yields_bind (Buffer.new_represents _) fun b hb => ?_
  refine yields_bind (Buffer.new_represents _) fun b' hb' => ?_
  exact yields_pure.mpr ⟨rfl, by simp [Channel.new, Channel.isReading], hb.1, hb'.1⟩

/-- The connection that `~TcpServer` comes to next is connecting or connected. -/
theorem Inv.next_doomed (h : s.Inv)
    (hst : s.stack s.base = .destroying (c :: rest) :: frames) :
    s.phase ≠ .alive ∧ ∃ e st, s.entries c = some e ∧ s.Matches c e st ∧
      (st = .waiting false ∨ st = .opening false ∨ st = .opened false) ∧
      (rest ++ frames.flatMap Frame.rest).count c = 0 := by
  have hp : s.phase ≠ .alive := fun halive =>
    h.shape.undoomed halive _ (hst ▸ List.mem_cons_self) rfl
  have hheld : s.held = c :: (rest ++ frames.flatMap Frame.rest) := by
    simp [held, hp, hst, Frame.rest]
  have hpos : 0 < s.held.count c := by rw [hheld]; simp
  refine ⟨hp, ?_⟩
  cases hc : s.entries c with
  | none => exact absurd (h.unheld c hc) (by omega)
  | some e =>
    obtain ⟨st, hm⟩ := h.life c e hc
    have hone : s.held.count c = 1 := by
      have hle : st.held ≤ 1 := by cases st <;> simp [Stage.held] <;> split <;> omega
      have := hm.held_eq
      omega
    refine ⟨e, st, rfl, hm, hm.of_held hp hone, ?_⟩
    rw [hheld, List.count_cons_self] at hone
    omega

variable [DecidableEq ι]

theorem elsewhere_destroying (hst : s.stack s.base = .destroying (c :: rest) :: frames) :
    Elsewhere c s (s.setStack s.base (.destroying rest :: frames)) := by
  refine elsewhere_setStack (fun d _ => ?_) fun d hd _ _ => ?_
  · rw [hst, framesOf_cons, framesOf_cons, if_neg (by simp [Frame.conn]),
      if_neg (by simp [Frame.conn])]
  · rw [hst]
    simp [Frame.rest, Ne.symm hd]

theorem Shape.destroying (h : s.Shape) (hp : s.phase ≠ .alive)
    (hst : s.stack s.base = .destroying (c :: rest) :: frames) :
    (s.setStack s.base (.destroying rest :: frames)).Shape := by
  refine h.setStack (fun f hf => ?_) (fun f hf => ?_) fun halive => absurd halive hp
  · rcases List.mem_cons.mp hf with rfl | hf
    · rfl
    · exact h.frames _ f (hst ▸ List.mem_cons_of_mem _ hf)
  · refine h.shallow s.base f ?_
    rw [hst]
    exact hf

theorem framesOf_destroying (hst : s.stack s.base = .destroying (c :: rest) :: frames) (j : ι) :
    framesOf c ((s.setStack s.base (.destroying rest :: frames)).stack j) =
      framesOf c (s.stack j) := by
  by_cases hj : j = s.base
  · subst hj
    simp [setStack, hst, framesOf_cons, Frame.conn]
  · simp [setStack, hj]

theorem destroying_own_inv (h : s.Inv) (hc : s.entries c = some e) (hb : e.loop = s.base)
    (hst : s.stack s.base = .destroying (c :: rest) :: frames) :
    ((s.setStack s.base (.destroying rest :: frames)).connectionDestroyed c e).Inv := by
  obtain ⟨hp, e', st, hc', hm, hcases, hcount⟩ := h.next_doomed hst
  cases hc.symm.trans hc'
  have hshallow : ∀ f ∈ frames, f.isCallback = false := by
    intro f hf
    refine h.shape.shallow s.base f ?_
    rw [hst]
    exact hf
  have hopened : st = .opened false := by
    rcases hcases with rfl | rfl | rfl
    · exact absurd hb hm.fits.2.2.2
    · have hfr := hm.frames_eq
      rw [hb, hst, framesOf_cons, if_neg (by simp [Frame.conn])] at hfr
      have hmem : Frame.connectionCallback c true ∈ framesOf c frames := by
        rw [hfr]
        exact List.mem_cons_self
      exact absurd (hshallow _ (List.mem_filter.mp hmem).1) (by simp [Frame.isCallback])
    · rfl
  subst hopened
  have hs : e.conn.state = .kconnected := hm.fits.1.resolve_right fun ha => hp ha.1
  have hframes := (framesOf_destroying hst e.loop).trans hm.frames_eq
  refine connectionDestroyed_inv h (elsewhere_destroying hst) (h.shape.destroying hp hst)
    ⟨e, hc, rfl⟩ hs hm.log_eq hframes ?_ hm.tasks_eq hm.removals_eq ?_ hm.input hm.output
  · intro f hf
    have hf' : f ∈ .destroying rest :: frames := by simpa [setStack, hb] using hf
    rcases List.mem_cons.mp hf' with rfl | hf'
    · rfl
    · exact hshallow f hf'
  · simpa [held, setStack, hp, Frame.rest] using hcount

theorem destroying_other_inv (h : s.Inv) (hc : s.entries c = some e)
    (hst : s.stack s.base = .destroying (c :: rest) :: frames) :
    ((s.setStack s.base (.destroying rest :: frames)).enqueue e.loop
      [.connectionDestroyed c]).Inv := by
  obtain ⟨hp, e', st, hc', hm, hcases, hcount⟩ := h.next_doomed hst
  cases hc.symm.trans hc'
  have hone : ∀ t ∈ [Task.connectionDestroyed c], t.conn = c := by simp [Task.conn]
  suffices hm' : ∃ st', ((s.setStack s.base (.destroying rest :: frames)).enqueue e.loop
      [.connectionDestroyed c]).Matches c e st' by
    obtain ⟨st', hm'⟩ := hm'
    refine h.of_elsewhere ((h.shape.destroying hp hst).enqueue ?_)
      ((elsewhere_destroying hst).trans (elsewhere_enqueue hone)) hc hm'
    intro t ht
    rw [List.mem_singleton.mp ht]
    exact ⟨e, hc, rfl⟩
  have hframes := (framesOf_destroying hst e.loop).trans hm.frames_eq
  have htasks : tasksOf c (Function.update s.queue e.loop
      (s.queue e.loop ++ [.connectionDestroyed c]) e.loop) =
        st.tasks c ++ [.connectionDestroyed c] := by
    rw [Function.update_self, tasksOf_append, hm.tasks_eq]
    simp [tasksOf_cons, Task.isLife, Task.conn]
  have hrem : removalsOf c (Function.update s.queue e.loop
      (s.queue e.loop ++ [.connectionDestroyed c]) s.base) = st.removals c := by
    rw [← hm.removals_eq]
    by_cases hx : s.base = e.loop
    · simp [hx, removalsOf_cons, Task.isRemoval]
    · simp [hx]
  have hheld : (s.setStack s.base (.destroying rest :: frames)).held.count c = 0 := by
    simpa [held, setStack, hp, Frame.rest] using hcount
  have hforced : Forced ((s.setStack s.base (.destroying rest :: frames)).enqueue e.loop
      [.connectionDestroyed c]) c e.loop → Leaving e.conn := by
    intro hf
    refine hm.forced ?_
    simpa [Forced, enqueue, setStack] using hf
  rcases hcases with rfl | rfl | rfl
  · exact ⟨.waiting true, hm.log_eq, hframes, htasks, hrem, hheld, hforced,
      ⟨hm.fits.1, hm.fits.2.1, fun _ => hp, hm.fits.2.2.2⟩, hm.input, hm.output⟩
  · exact ⟨.opening true, hm.log_eq, hframes, htasks, hrem, hheld, hforced,
      ⟨hm.fits.1, fun _ => hp⟩, hm.input, hm.output⟩
  · exact ⟨.opened true, hm.log_eq, hframes, htasks, hrem, hheld, hforced,
      ⟨hm.fits.1, fun _ => hp⟩, hm.input, hm.output⟩

end Server

end TcpServer

end Dwater
