import Dwater.Net.Lifecycle.Frames

/-! # Orderly steps of a server

The server is destroyed in an orderly way when the connections it lists are connecting
or connected, and none of them is shut down or closed by its peer before its own
`ConnectionDestroyed`. Every step that is orderly in this sense takes each connection
through its stages, without a failed assertion and without a use of the dead server.
-/

set_option autoImplicit false
namespace Dwater

open Fallible TcpConnection

variable {ι : Type}

namespace TcpServer

section Phases

variable {s : TcpServer ι} {frames : List Frame} [DecidableEq ι]

/-- Every connection that the server lists is connecting or connected. -/
def Destructible (s : TcpServer ι) : Prop :=
  ∀ c ∈ s.connections, ∀ e, s.entries c = some e →
    e.conn.state = .kconnecting ∨ e.conn.state = .kconnected

theorem destroyed_server_inv (h : s.Inv) (hst : s.stack s.base = .destroying [] :: frames) :
    (setStack { s with phase := .dead } s.base frames).Inv := by
  have hp : s.phase ≠ .alive := fun halive =>
    h.shape.undoomed halive _ (hst ▸ List.mem_cons_self) rfl
  have hs := h.shape.pop hst
  have hframes : ∀ c j, framesOf c (Function.update s.stack s.base frames j) =
      framesOf c (s.stack j) := by
    intro c j
    by_cases hj : j = s.base
    · subst hj
      rw [Function.update_self, hst, framesOf_cons, if_neg (by simp [Frame.conn])]
    · rw [Function.update_of_ne hj]
  have hheld : (setStack { s with phase := .dead } s.base frames).held = s.held := by
    simp [held, setStack, hp, hst, Frame.rest]
  refine ⟨⟨?_, ?_, hs.shallow, fun halive => (by cases halive), hs.unborn⟩, ?_, ?_⟩
  · exact fun j f hf => (hs.frames j f hf).mono (fun _ _ h => h) rfl
  · exact fun j t ht => (hs.tasks j t ht).mono (fun _ _ h => h) rfl
  · intro c hc
    rw [hheld]
    exact h.unheld c hc
  · intro c e hc
    obtain ⟨st, hm⟩ := h.life c e hc
    refine ⟨st, hm.log_eq, (hframes c _).trans hm.frames_eq, hm.tasks_eq, hm.removals_eq, ?_,
      hm.forced, ?_, hm.input, hm.output⟩
    · rw [hheld]
      exact hm.held_eq
    · have hphase : (ServerPhase.dead = .alive) = (s.phase = .alive) := by simp [hp]
      have hf := hm.fits
      rwa [← hphase] at hf

theorem held_destroy (h : s.Inv) (halive : s.phase = .alive) : s.destroy.held = s.held := by
  have hrest : (s.stack s.base).flatMap Frame.rest = [] := by
    rw [List.flatMap_eq_nil_iff]
    exact fun f hf => Frame.rest_of_conn (h.shape.undoomed halive f hf)
  simp [held, destroy, setStack, halive, Frame.rest, hrest]

theorem framesOf_destroy (c : ℕ) (j : ι) :
    framesOf c (s.destroy.stack j) = framesOf c (s.stack j) := by
  by_cases hj : j = s.base
  · subst hj
    simp [destroy, setStack, framesOf_cons, Frame.conn]
  · simp [destroy, setStack, hj]

omit [DecidableEq ι] in
/-- In user code nothing below the destructor's frame is a callback to come. -/
theorem shallow_destroy (h : s.Shape) (huser : s.inUserCode s.base = true) :
    ∀ f ∈ s.stack s.base, f.isCallback = false := by
  intro f hf
  unfold inUserCode at huser
  cases hst : s.stack s.base with
  | nil =>
    rw [hst] at hf
    cases hf
  | cons g gs =>
    rw [hst] at hf huser
    rcases List.mem_cons.mp hf with rfl | hf
    · cases f with
      | connectionCallback c b => simp at huser
      | _ => rfl
    · apply h.shallow s.base f
      rw [hst]
      exact hf

theorem Shape.destroy (h : s.Shape) (huser : s.inUserCode s.base = true) : s.destroy.Shape := by
  constructor
  · intro j f hf
    by_cases hj : j = s.base
    · subst hj
      have hf' : f ∈ .destroying s.connections :: s.stack s.base := by
        simpa [TcpServer.destroy, TcpServer.setStack] using hf
      rcases List.mem_cons.mp hf' with rfl | hf'
      · rfl
      · exact (h.frames _ f hf').mono (fun _ _ h => h) rfl
    · have hf' : f ∈ s.stack j := by simpa [TcpServer.destroy, TcpServer.setStack, hj] using hf
      exact (h.frames j f hf').mono (fun _ _ h => h) rfl
  · exact fun j t ht => (h.tasks j t ht).mono (fun _ _ h => h) rfl
  · intro j f hf
    by_cases hj : j = s.base
    · subst hj
      exact shallow_destroy h huser f (by simpa [TcpServer.destroy, TcpServer.setStack] using hf)
    · exact h.shallow j f (by simpa [TcpServer.destroy, TcpServer.setStack, hj] using hf)
  · intro ha
    cases ha
  · exact h.unborn

/-- A listed connection is connecting or connected, the others have been let go. -/
theorem fits_destroy {st : Stage} {conn : TcpConnection} {own : Prop}
    (hf : st.Fits (s.phase = .alive) own conn) (halive : s.phase = .alive)
    (hlisted : st.held = 1 → conn.state = .kconnecting ∨ conn.state = .kconnected) :
    st.Fits (s.destroy.phase = .alive) own conn := by
  have hphase : ¬ s.destroy.phase = .alive := by simp [destroy, setStack]
  have hnot : st.held = 1 → conn.state ≠ .kdisconnecting ∧ conn.state ≠ .kdisconnected := by
    intro hone
    rcases hlisted hone with hs | hs <;> simp [hs]
  cases st with
  | waiting d => exact ⟨hf.1, hf.2.1, fun _ => hphase, hf.2.2.2⟩
  | opening d | opened d =>
    cases d with
    | true => exact absurd halive (hf.2 rfl)
    | false =>
      refine ⟨.inl ?_, fun _ => hphase⟩
      rcases hf.1 with hs | ⟨-, hs⟩
      · exact hs
      · exact absurd hs (hnot rfl).1
  | closing | leaving | removing => exact absurd hf.2.1 (hnot rfl).2
  | condemned | ending | parting | gone => exact hf

theorem destroy_inv (h : s.Inv) (halive : s.phase = .alive)
    (huser : s.inUserCode s.base = true) (hd : s.Destructible) : s.destroy.Inv := by
  have hheld := held_destroy h halive
  constructor
  · exact h.shape.destroy huser
  · intro c hc
    rw [hheld]
    exact h.unheld c hc
  · intro c e hc
    obtain ⟨st, hm⟩ := h.life c e hc
    have hlisted : st.held = 1 → e.conn.state = .kconnecting ∨ e.conn.state = .kconnected := by
      intro hone
      have hcount := hm.held_eq.trans hone
      simp only [held, halive, if_true] at hcount
      exact hd c (List.count_pos_iff.mp (by omega)) e hc
    refine ⟨st, hm.log_eq, (framesOf_destroy c _).trans hm.frames_eq, hm.tasks_eq, hm.removals_eq,
      ?_, hm.forced, fits_destroy hm.fits halive hlisted, hm.input, hm.output⟩
    rw [hheld]
    exact hm.held_eq

omit [DecidableEq ι] in
theorem held_register (halive : s.phase = .alive) (e : Entry ι) :
    (s.register e).held = s.held ++ [s.nextConnid] := by
  simp [held, register, setEntry, halive]

omit [DecidableEq ι] in
theorem elsewhere_register (halive : s.phase = .alive) (e : Entry ι) :
    Elsewhere s.nextConnid s (s.register e) := by
  refine ⟨fun d hd => Function.update_of_ne hd _ _, fun _ _ _ => rfl, fun _ _ _ => rfl,
    fun _ _ _ => rfl, fun d hd => ?_, fun _ _ _ hf => hf, rfl, rfl⟩
  rw [held_register halive, List.count_append]
  simp [Ne.symm hd]

omit [DecidableEq ι] in
theorem Shape.register (h : s.Shape) (e : Entry ι) : (s.register e).Shape := by
  have hnone : s.entries s.nextConnid = none := h.unborn _ (Nat.le_refl _)
  have hother : ∀ d, d ≠ s.nextConnid → (s.register e).entries d = s.entries d :=
    fun d hd => Function.update_of_ne hd _ _
  have hl : ∀ d j, s.LoopOf d j → (s.register e).LoopOf d j := by
    rintro d j ⟨e₀, hc, hj⟩
    have hne : d ≠ s.nextConnid := by
      rintro rfl
      rw [hnone] at hc
      cases hc
    exact ⟨e₀, (hother d hne).trans hc, hj⟩
  refine ⟨fun j f hf => (h.frames j f hf).mono hl rfl, fun j t ht => (h.tasks j t ht).mono hl rfl,
    h.shallow, h.undoomed, fun d hd => ?_⟩
  have hd' : s.nextConnid + 1 ≤ d := hd
  rw [hother d (by omega)]
  exact h.unborn d (by omega)

/-- A connection that the server has just registered. -/
structure Newborn (s : TcpServer ι) (e : Entry ι) : Prop where
  log_eq : e.log = []
  state_eq : e.conn.state = .kconnecting
  reading_eq : e.conn.channel.isReading = false
  input : e.conn.inputBuffer.Inv
  output : e.conn.outputBuffer.Inv
  unborn : s.entries s.nextConnid = none

omit [DecidableEq ι] in
theorem Newborn.count_held {e : Entry ι} (hb : s.Newborn e) (h : s.Inv)
    (halive : s.phase = .alive) :
    (s.register e).held.count s.nextConnid = 1 := by
  rw [held_register halive, List.count_append, h.unheld _ hb.unborn]
  simp

theorem newConnection_own_inv {e : Entry ι} (h : s.Inv) (halive : s.phase = .alive)
    (hb : s.Newborn e) (hst : s.stack e.loop = []) :
    Yields ((s.register e).connectionEstablished s.nextConnid e) Inv := by
  have hentry : (s.register e).entries s.nextConnid = some e := Function.update_self ..
  have hframes : framesOf s.nextConnid (s.stack e.loop) = [] := framesOf_unborn h.shape hb.unborn
  have htasks : tasksOf s.nextConnid (s.queue e.loop) = [] := tasksOf_unborn h.shape hb.unborn
  have hremovals : removalsOf s.nextConnid (s.queue s.base) = [] :=
    removalsOf_unborn h.shape hb.unborn
  have hforced : ¬ s.Forced s.nextConnid e.loop := not_forced_of_unborn h.shape hb.unborn
  unfold connectionEstablished TcpConnection.connectionEstablished
  rw [check_bind_of_true hb.state_eq]
  refine yields_pure.mpr (h.after (.opening false) (elsewhere_register halive e)
    (h.shape.register e) ⟨e, hentry, rfl⟩ ?_ ?_ ?_ ?_ htasks hremovals (hb.count_held h halive) ?_
    ⟨.inl rfl, by simp⟩ hb.input hb.output)
  · intro f hf
    simp at hf
  · have hstack : (s.register e).stack e.loop = [] := hst
    intro f hf
    simp [hstack, Effect.frame] at hf
  · simp [hb.log_eq, Stage.log]
  · have hregister : framesOf s.nextConnid ((s.register e).stack e.loop) = [] := hframes
    rw [hregister]
    rfl
  · rintro (hf | hf | hf)
    · exact absurd hf hforced
    · simp at hf
    · simp at hf

theorem newConnection_other_inv {e : Entry ι} (h : s.Inv) (halive : s.phase = .alive)
    (hb : s.Newborn e) (hio : e.loop ≠ s.base) :
    ((s.register e).enqueue e.loop [.connectionEstablished s.nextConnid]).Inv := by
  have hentry : (s.register e).entries s.nextConnid = some e := Function.update_self ..
  have hone : ∀ t ∈ [Task.connectionEstablished s.nextConnid], t.conn = s.nextConnid := by
    simp [Task.conn]
  have hq : ((s.register e).enqueue e.loop [.connectionEstablished s.nextConnid]).queue e.loop =
      s.queue e.loop ++ [.connectionEstablished s.nextConnid] := Function.update_self ..
  suffices hm : ((s.register e).enqueue e.loop [.connectionEstablished s.nextConnid]).Matches
      s.nextConnid e (.waiting false) by
    refine h.of_elsewhere ((h.shape.register e).enqueue ?_)
      ((elsewhere_register halive e).trans (elsewhere_enqueue hone)) hentry hm
    intro t ht
    rw [List.mem_singleton.mp ht]
    exact ⟨e, hentry, rfl⟩
  constructor
  · exact hb.log_eq
  · have hframes : framesOf s.nextConnid (s.stack e.loop) = [] := framesOf_unborn h.shape hb.unborn
    exact hframes
  · rw [hq, tasksOf_append, tasksOf_unborn h.shape hb.unborn]
    simp [tasksOf_cons, Task.isLife, Task.conn, Stage.tasks]
  · have hbase :
        ((s.register e).enqueue e.loop [.connectionEstablished s.nextConnid]).queue s.base =
          s.queue s.base := Function.update_of_ne (Ne.symm hio) _ _
    exact (congrArg _ hbase).trans (removalsOf_unborn h.shape hb.unborn)
  · exact hb.count_held h halive
  · intro hf
    rw [Forced, hq, List.mem_append] at hf
    rcases hf with hf | hf
    · exact absurd hf (not_forced_of_unborn h.shape hb.unborn)
    · simp at hf
  · exact ⟨hb.state_eq, hb.reading_eq, by simp, hio⟩
  · exact hb.input
  · exact hb.output

theorem newConnection_inv (h : s.Inv) (halive : s.phase = .alive) (hst : s.stack s.base = [])
    (io : ι) (sockfd : ℕ) : Yields (s.newConnection io sockfd) Inv := by
  refine yields_bind (new_yields sockfd) fun conn hconn => ?_
  obtain ⟨hs, hr, hin, hout⟩ := hconn
  have hb : s.Newborn ⟨io, { conn with writeCompleteCallback := s.writeCompleteCallback }, []⟩ :=
    ⟨rfl, hs, hr, hin, hout, h.shape.unborn _ (Nat.le_refl _)⟩
  dsimp only
  split
  · next hio => exact newConnection_own_inv h halive hb (hio ▸ hst)
  · next hio => exact yields_pure.mpr (newConnection_other_inv h halive hb hio)

end Phases

section Runs

variable {s : TcpServer ι} {c : ℕ} {e : Entry ι} {st : Stage}

theorem Matches.none_of_disconnected (hm : s.Matches c e st)
    (hs : e.conn.state = .kdisconnected) : e.conn.channel.isNoneEvent = true := by
  have hf := hm.fits
  cases st with
  | waiting d =>
    have := hf.1
    simp_all
  | opening d | opened d =>
    have := hf.1
    simp_all
  | closing | leaving | removing => exact hf.2.2
  | condemned | ending | parting | gone => exact hf.2

theorem Matches.open_of_reading (hm : s.Matches c e st) (hr : e.conn.channel.isReading = true) :
    e.conn.state = .kconnected ∨ (s.phase = .alive ∧ e.conn.state = .kdisconnecting) := by
  have hf := hm.fits
  cases st with
  | waiting d => simp [hf.2.1] at hr
  | opening d | opened d => exact hf.1
  | closing | leaving | removing =>
    simp [Channel.isReading_of_isNoneEvent _ hf.2.2] at hr
  | condemned | ending | parting | gone =>
    simp [Channel.isReading_of_isNoneEvent _ hf.2] at hr

theorem Matches.alive_of_disconnecting (hm : s.Matches c e st)
    (hs : e.conn.state = .kdisconnecting) : s.phase = .alive := by
  obtain ⟨d, rfl | rfl⟩ := hm.open_of_state (.inr hs)
  · rcases hm.fits.1 with hs' | h
    · simp [hs] at hs'
    · exact h.1
  · rcases hm.fits.1 with hs' | h
    · simp [hs] at hs'
    · exact h.1

variable [DecidableEq ι]

theorem disconnecting_inv {fx : List Effect} (h : s.Inv) (hc : s.entries c = some e)
    (halive : s.phase = .alive)
    (hs : e.conn.state = .kconnected ∨ e.conn.state = .kdisconnecting)
    (hfr : fx.filterMap (Effect.frame c) = [])
    (hfx : ∀ f, Effect.runInLoop f ∈ fx ∨ Effect.queueInLoop f ∈ fx → Callable f) :
    (s.after c e (e.conn.setState .kdisconnecting, fx)).Inv := by
  obtain ⟨st, hm⟩ := h.life c e hc
  refine h.quiet hc hm hfr hfx (fun _ => .inl rfl) (fun _ => .inl rfl) ?_ hm.input hm.output
  obtain ⟨d, rfl | rfl⟩ := hm.open_of_state hs
  · exact ⟨.inr ⟨halive, rfl⟩, hm.fits.2⟩
  · exact ⟨.inr ⟨halive, rfl⟩, hm.fits.2⟩

theorem noop_inv (h : s.Inv) (hc : s.entries c = some e) : (s.after c e (e.conn, [])).Inv := by
  obtain ⟨st, hm⟩ := h.life c e hc
  exact h.steady hc (by simp) rfl rfl (fun _ => rfl) hm.input hm.output

theorem shutdown_inv {t : Option ι} (h : s.Inv) (hc : s.entries c = some e)
    (halive : s.phase ≠ .alive → e.conn.state ≠ .kconnected) :
    Yields (s.call t c e e.conn.shutdown) Inv := by
  by_cases hs : e.conn.state = .kconnected
  · have ha : s.phase = .alive := Classical.not_not.mp fun hp => halive hp hs
    simp only [call, TcpConnection.shutdown, hs, if_true]
    split
    · have hi : (s.after c e (e.conn.setState .kdisconnecting,
          (e.conn.setState .kdisconnecting).shutdownInLoop)).Inv := by
        refine disconnecting_inv h hc ha (.inl hs) ?_ fun f hf => ?_
        · unfold shutdownInLoop
          split <;> rfl
        · unfold shutdownInLoop at hf
          split at hf <;> simp at hf
      exact yields_pure.mpr hi
    · refine yields_pure.mpr (disconnecting_inv h hc ha (.inl hs) rfl ?_)
      intro f hf
      have hf' : f = .shutdownInLoop := by simpa using hf
      rw [hf']
      exact ⟨by decide, by decide⟩
  · simp only [call, TcpConnection.shutdown, hs, if_false]
    exact yields_pure.mpr (noop_inv h hc)

theorem forceClose_inv {t : Option ι} (h : s.Inv) (hc : s.entries c = some e)
    (halive : s.phase ≠ .alive → e.conn.state ≠ .kconnected) :
    Yields (s.call t c e e.conn.forceClose) Inv := by
  obtain ⟨st, hm⟩ := h.life c e hc
  by_cases hs : e.conn.state = .kconnected ∨ e.conn.state = .kdisconnecting
  · have ha : s.phase = .alive := by
      rcases hs with hs | hs
      · exact Classical.not_not.mp fun hp => halive hp hs
      · exact hm.alive_of_disconnecting hs
    simp only [call, TcpConnection.forceClose, hs, if_true]
    refine yields_pure.mpr (disconnecting_inv h hc ha hs rfl ?_)
    intro f hf
    have hf' : f = .forceCloseInLoop := by simpa using hf
    rw [hf']
    exact ⟨by decide, by decide⟩
  · simp only [call, TcpConnection.forceClose, hs, if_false]
    exact yields_pure.mpr (noop_inv h hc)

theorem send_inv {t : Option ι} {message : List Byte} {w : WriteResult} (h : s.Inv)
    (hc : s.entries c = some e) :
    Yields (e.conn.send (t = some e.loop) message w >>= s.call t c e) Inv := by
  obtain ⟨st, hm⟩ := h.life c e hc
  by_cases hs : e.conn.state = .kconnected
  · by_cases ht : t = some e.loop
    · have hnd : e.conn.state ≠ .kdisconnected := by rw [hs]; decide
      have hy : Yields (e.conn.sendInLoop message w) (SendPost e.conn _ message w) :=
        sendInLoop_yields hm.output.represents hnd
      obtain ⟨r, hr, hpost⟩ := hy
      have hcall : s.call t c e r = .ok (s.after c e r) := by
        unfold call
        split
        · next f hf =>
          have ho := hpost.output (.runInLoop f) (hf ▸ List.mem_cons_self)
          exact ho.elim
        · rfl
      have hsend : Yields (s.after c e <$> e.conn.sendInLoop message w) Inv := sendInLoop_inv h hc
      simp only [TcpConnection.send, hs, ht, decide_true, if_true]
      rw [hr] at hsend ⊢
      subst ht
      exact ⟨_, hcall, hsend.of_eq rfl⟩
    · simp only [TcpConnection.send, hs, ht, decide_false, if_true, Bool.false_eq_true, if_false]
      refine ⟨_, ?_, h.steady hc (r := (e.conn, [.runInLoop (.sendInLoop message)])) ?_ rfl rfl
        (fun _ => rfl) hm.input hm.output⟩
      · simp [call, ht, bind, Except.bind, pure, Except.pure]
      · intro x hx
        rw [List.mem_singleton.mp hx]
        exact .inr (.inr (.inr (.inl ⟨message, rfl⟩)))
  · simp only [TcpConnection.send, hs, if_false]
    exact ⟨_, rfl, noop_inv h hc⟩

theorem execute_inv {f : Functor} {w : WriteResult} (h : s.Inv) (hc : s.entries c = some e)
    (hst : s.stack e.loop = []) (hf : Callable f)
    (hforce : f = .forceCloseInLoop → Leaving e.conn) : Yields (s.execute c e w f) Inv := by
  obtain ⟨st, hm⟩ := h.life c e hc
  cases f with
  | sendInLoop message => exact sendInLoop_inv h hc
  | shutdownInLoop => exact yields_pure.mpr (shutdownInLoop_steady h hc)
  | forceCloseInLoop =>
    simp only [execute, TcpConnection.forceCloseInLoop]
    rcases hforce rfl with hs | hs
    · rw [if_pos (.inr hs)]
      exact handleClose_inv h hc hst (hm.alive_of_disconnecting hs) rfl (.inr hs) hm.input
        hm.output
    · rw [if_neg (by simp [hs])]
      exact yields_ok.mpr (noop_inv h hc)
  | startReadInLoop => exact absurd rfl hf.1
  | stopReadInLoop => exact absurd rfl hf.2
  | writeCompleteCallback => exact yields_pure.mpr h
  | highWaterMarkCallback n => exact yields_pure.mpr h

theorem handleRead_inv {r : ReadvResult} (h : s.Inv) (hc : s.entries c = some e)
    (hst : s.stack e.loop = []) (hr : e.conn.channel.isReading = true)
    (halive : r = .bytes [] → s.phase ≠ .alive → e.conn.state ≠ .kconnected) :
    Yields (s.after c e <$> e.conn.handleRead r) Inv := by
  obtain ⟨st, hm⟩ := h.life c e hc
  cases r with
  | error errno =>
    refine yields_ok.mpr (h.steady hc (r := (e.conn, [])) (by simp) rfl rfl (fun _ => rfl) hm.input
      hm.output)
  | bytes data =>
    obtain ⟨b, hb, hrep, hn⟩ := Buffer.readFd_represents hm.input.represents data
    obtain ⟨b, n, errno⟩ := b
    cases hn
    unfold handleRead
    rw [hb]
    by_cases hd : data = []
    · subst hd
      have hopen := hm.open_of_reading hr
      have ha : s.phase = .alive := by
        rcases hopen with hs | hs
        · exact Classical.not_not.mp fun hp => halive rfl hp hs
        · exact hs.1
      have hs : e.conn.state = .kconnected ∨ e.conn.state = .kdisconnecting :=
        hopen.imp id And.right
      have hi : Yields (s.after c e <$> handleClose { e.conn with inputBuffer := b }) Inv :=
        handleClose_inv h hc hst ha rfl hs hrep.1 hm.output
      exact hi
    · have hpos : (0 : ℤ) < data.length := by
        have := List.length_pos_of_ne_nil hd
        omega
      simp only [bind, Except.bind, hpos, if_true]
      refine yields_ok.mpr (h.steady hc
        (r := ({ e.conn with inputBuffer := b }, [.messageCallback]))
        (by simp) rfl rfl (fun _ => rfl) hrep.1 hm.output)

theorem handleWrite_inv {w : WriteResult} (h : s.Inv) (hc : s.entries c = some e)
    (hi : e.conn.channel.isWriting = true)
    (hw : w.Within e.conn.outputBuffer.readableBytes) :
    Yields (s.after c e <$> e.conn.handleWrite w) Inv := by
  obtain ⟨st, hm⟩ := h.life c e hc
  have hnd : e.conn.state ≠ .kdisconnected := by
    intro hs
    simp [Channel.isWriting_of_isNoneEvent _ (hm.none_of_disconnected hs)] at hi
  rw [← hm.output.length_content] at hw
  refine yields_map (handleWrite_yields hm.output.represents hw) fun r hr => ?_
  have hout : r.1.outputBuffer.Inv := by
    obtain ⟨q', hq', -⟩ := hr.backlog hm.output.represents
    exact hq'.1
  cases hr with
  | idle => exact noop_inv h hc
  | some _ _ _ hb =>
    refine h.steady hc ?_ rfl rfl (fun hd => absurd hd hnd) hm.input hout
    intro x hx
    rw [List.mem_singleton.mp hx]
    exact .inl trivial
  | all _ _ hb =>
    refine h.steady hc ?_ rfl (Channel.isReading_disableWriting _) (fun hd => absurd hd hnd)
      hm.input hout
    intro x hx
    rcases List.mem_append.mp hx with hx | hx
    · rcases List.mem_cons.mp hx with rfl | hx
      · exact .inl trivial
      · exact .inl (queueWriteComplete_output hx)
    · split at hx
      · rw [List.mem_singleton.mp hx]
        exact .inr (.inl rfl)
      · cases hx

end Runs

section Theorem

variable [DecidableEq ι]

/--
The kernel takes at most what it is given, `~TcpServer` finds its connections connecting or
connected, and from then on no connected connection is shut down or closed by its peer.
-/
def Orderly (s : TcpServer ι) : ServerLabel ι → Prop
  | .destroy => s.phase = .alive → s.Destructible
  | .shutdown _ c | .forceClose _ c | .handleRead c (.bytes []) => s.phase ≠ .alive →
      ∀ e, s.entries c = some e → e.conn.state ≠ .kconnected
  | .handleWrite c w =>
      ∀ e, s.entries c = some e → w.Within e.conn.outputBuffer.readableBytes
  | _ => True

/-- No thread of a loop has anything left to do. -/
def Quiet (s : TcpServer ι) : Prop := ∀ i, s.queue i = [] ∧ s.stack i = []

/--
A connection's life is a part of a whole one, it is disconnected when its life is over, and when
nothing is left to do its life is over or it is open under a living server.
-/
def LivesOnce (s : TcpServer ι) : Prop :=
  ∀ c e, s.entries c = some e → e.log <+: wholeLife ∧
    (.destroyed ∈ e.log → e.conn.state = .kdisconnected) ∧
    (s.Quiet → e.log = wholeLife ∨ (s.phase = .alive ∧ e.log = [.established, .up]))

theorem proceed_inv {s : TcpServer ι} (h : s.Inv) (i : ι) : Yields (s.proceed i) Inv := by
  cases hst : s.stack i with
  | nil =>
    unfold proceed
    rw [hst]
    exact yields_pure.mpr h
  | cons f frames =>
    cases f with
    | removeChannel c => exact removeChannel_inv h hst
    | connectionCallback c b =>
      unfold proceed
      rw [hst]
      exact yields_pure.mpr (connectionCallback_inv h hst)
    | closeCallback c =>
      unfold proceed
      rw [hst]
      exact closeCallback_inv h hst
    | destroying rest =>
      have hi : i = s.base := h.shape.frames i (.destroying rest) (hst ▸ List.mem_cons_self)
      subst hi
      cases rest with
      | nil =>
        unfold proceed
        rw [hst]
        exact yields_pure.mpr (destroyed_server_inv h hst)
      | cons c rest =>
        obtain ⟨-, e, st, hc, -⟩ := h.next_doomed hst
        have hc' : (s.setStack s.base (.destroying rest :: frames)).entries c = some e := hc
        simp only [proceed, hst, hc']
        split
        · next hb => exact yields_pure.mpr (destroying_own_inv h hc hb hst)
        · exact yields_pure.mpr (destroying_other_inv h hc hst)

theorem runFunctor_inv {s : TcpServer ι} (h : s.Inv) {i : ι} (hst : s.stack i = [])
    (w : WriteResult) : Yields (s.runFunctor i w) Inv := by
  unfold runFunctor
  split
  · exact yields_pure.mpr h
  · next task tasks hq =>
    have hp := h.shape.tasks i task (hq ▸ List.mem_cons_self)
    cases task with
    | connectionEstablished c =>
      obtain ⟨e, hc, rfl⟩ := hp
      simp only [hc]
      exact established_inv h hst hq hc
    | connectionDestroyed c =>
      obtain ⟨e, hc, rfl⟩ := hp
      simp only [hc]
      exact yields_pure.mpr (destroyed_inv h hst hq hc)
    | removeConnectionInLoop c => exact removal_inv h hq
    | functor c f =>
      obtain ⟨⟨e, hc, rfl⟩, hf⟩ := hp
      simp only [hc]
      refine execute_inv (h.dequeue_functor hq hc) hc hst hf fun hforce => ?_
      subst hforce
      obtain ⟨st, hm⟩ := h.life c e hc
      refine hm.forced ?_
      rw [Forced, hq]
      exact List.mem_cons_self

theorem step_inv (s : TcpServer ι) (x : ServerLabel ι) (h : s.Inv) (hx : s.Orderly x) :
    Yields (s.step x) Inv := by
  cases x with
  | newConnection io sockfd =>
    simp only [step]
    split
    · next hp => exact newConnection_inv h hp.1 hp.2 io sockfd
    · exact yields_pure.mpr h
  | proceed i => exact proceed_inv h i
  | runFunctor i w =>
    simp only [step]
    split
    · next hst => exact runFunctor_inv h hst w
    · exact yields_pure.mpr h
  | destroy =>
    simp only [step]
    split
    · next hp => exact yields_pure.mpr (destroy_inv h hp.1 hp.2 (hx hp.1))
    · exact yields_pure.mpr h
  | handleRead c r =>
    simp only [step]
    split
    · next e hc =>
      simp only [connStep]
      split
      · next hp =>
        refine handleRead_inv h hc hp.1 hp.2 fun hr ha => ?_
        subst hr
        exact hx ha e hc
      · exact yields_pure.mpr h
    · exact yields_pure.mpr h
  | handleWrite c w =>
    simp only [step]
    split
    · next e hc =>
      simp only [connStep]
      split
      · next hp => exact handleWrite_inv h hc hp.2 (hx e hc)
      · exact yields_pure.mpr h
    · exact yields_pure.mpr h
  | send t c message w =>
    simp only [step]
    split
    · next e hc => exact send_inv h hc
    · exact yields_pure.mpr h
  | shutdown t c =>
    simp only [step]
    split
    · next e hc => exact shutdown_inv h hc fun ha => hx ha e hc
    · exact yields_pure.mpr h
  | forceClose t c =>
    simp only [step]
    split
    · next e hc => exact forceClose_inv h hc fun ha => hx ha e hc
    · exact yields_pure.mpr h

omit [DecidableEq ι] in
theorem new_inv (base : ι) (cb : Bool) : (new base cb).Inv := by
  refine ⟨⟨?_, ?_, ?_, ?_, fun _ _ => rfl⟩, fun _ _ => rfl, ?_⟩
  · exact fun _ _ hf => absurd hf List.not_mem_nil
  · exact fun _ _ ht => absurd ht List.not_mem_nil
  · exact fun _ _ hf => absurd hf List.not_mem_nil
  · exact fun _ _ hf => absurd hf List.not_mem_nil
  · intro c e hc
    cases hc

theorem Stage.log_prefix (st : Stage) : st.log <+: wholeLife := by
  cases st <;> decide +revert

omit [DecidableEq ι] in
theorem Inv.livesOnce {s : TcpServer ι} (h : s.Inv) : s.LivesOnce := by
  intro c e hc
  obtain ⟨st, hm⟩ := h.life c e hc
  refine ⟨hm.log_eq ▸ Stage.log_prefix st, fun hd => ?_, fun hq => ?_⟩
  · rw [hm.log_eq] at hd
    cases st with
    | gone => exact hm.fits.1
    | _ => simp [Stage.log] at hd
  · have hframes := hm.frames_eq
    have htasks := hm.tasks_eq
    have hrem := hm.removals_eq
    rw [(hq e.loop).2] at hframes
    rw [(hq e.loop).1] at htasks
    rw [(hq s.base).1] at hrem
    rw [hm.log_eq]
    cases st with
    | gone => exact .inl rfl
    | waiting d => cases d <;> cases htasks
    | opened d =>
      cases d with
      | true => cases htasks
      | false =>
        refine .inr ⟨?_, rfl⟩
        by_contra hp
        have hheld := hm.held_eq
        simp [held, hp, (hq s.base).2, Stage.held] at hheld
    | opening | closing | leaving | ending | parting => cases hframes
    | removing => cases hrem
    | condemned => cases htasks

end Theorem

end TcpServer

end Dwater
