import Dwater.Net.TcpServer

/-! # What a step of the server leaves as it is

A step may add to a connection's log and may make one connection, but it takes no
connection away and moves none to another loop. On the stacks it replaces the top by the
calls that a method still has to make; only `ConnectionDestroyed` leaves a channel to be
removed, and only `~TcpServer` leaves connections to be destroyed.
-/

set_option autoImplicit false
namespace Dwater

open Fallible

variable {ι : Type}

def Frame.isCall : Frame → Bool
  | connectionCallback _ _ | closeCallback _ => true
  | _ => false

def Frame.isTeardown : Frame → Bool
  | destroying _ => true
  | _ => false

namespace TcpServer

/-- Every connection stays with its loop and keeps what its log holds, and there is no new one. -/
structure Continues (s t : TcpServer ι) : Prop where
  loops : ∀ c, (t.entries c).map Entry.loop = (s.entries c).map Entry.loop
  logs : ∀ c e, s.entries c = some e → ∃ e', t.entries c = some e' ∧ e.log <+: e'.log
  base : t.base = s.base
  nextConnid : t.nextConnid = s.nextConnid
  alive : t.phase = .alive → s.phase = .alive

section Continues

variable {s t u : TcpServer ι} {c : ℕ} {e e' : Entry ι}

theorem Continues.refl : Continues s s :=
  ⟨fun _ => rfl, fun _ e hc => ⟨e, hc, List.prefix_rfl⟩, rfl, rfl, id⟩

theorem Continues.trans (h : Continues s t) (h' : Continues t u) : Continues s u := by
  constructor
  · exact fun c => (h'.loops c).trans (h.loops c)
  · intro c e hc
    obtain ⟨e', hc', hlog⟩ := h.logs c e hc
    obtain ⟨e'', hc'', hlog'⟩ := h'.logs c e' hc'
    exact ⟨e'', hc'', hlog.trans hlog'⟩
  · exact h'.base.trans h.base
  · exact h'.nextConnid.trans h.nextConnid
  · exact h.alive ∘ h'.alive

theorem Continues.of_eq (hentries : t.entries = s.entries) (hbase : t.base = s.base)
    (hnext : t.nextConnid = s.nextConnid) (halive : t.phase = .alive → s.phase = .alive) :
    Continues s t :=
  ⟨fun c => by rw [hentries], fun c e hc => ⟨e, hentries ▸ hc, List.prefix_rfl⟩, hbase, hnext,
    halive⟩

theorem Continues.setEntry (h : Continues s t) (hc : t.entries c = some e)
    (hl : e'.loop = e.loop) (hlog : e.log <+: e'.log) : Continues s (t.setEntry c e') := by
  refine h.trans ⟨fun d => ?_, fun d f hd => ?_, rfl, rfl, id⟩
  · by_cases hd : d = c
    · simp [TcpServer.setEntry, hd, hc, hl]
    · simp [TcpServer.setEntry, hd]
  · by_cases hne : d = c
    · subst hne
      cases hc.symm.trans hd
      exact ⟨e', Function.update_self .., hlog⟩
    · exact ⟨f, (Function.update_of_ne hne ..).trans hd, List.prefix_rfl⟩

theorem Continues.record (h : Continues s t) (c : ℕ) (x : LifeEvent) :
    Continues s (t.record c x) := by
  unfold TcpServer.record
  split
  · next hc => exact h.setEntry hc rfl (List.prefix_append ..)
  · exact h

theorem register_loops (c : ℕ) : ((s.register e).entries c).map Entry.loop =
    if c = s.nextConnid then some e.loop else (s.entries c).map Entry.loop := by
  by_cases hc : c = s.nextConnid
  · simp [register, TcpServer.setEntry, hc]
  · simp [register, TcpServer.setEntry, hc]

variable [DecidableEq ι]

theorem Continues.enqueue (h : Continues s t) (i : ι) (tasks : List Task) :
    Continues s (t.enqueue i tasks) := h.trans (.of_eq rfl rfl rfl id)

theorem Continues.setStack (h : Continues s t) (i : ι) (frames : List Frame) :
    Continues s (t.setStack i frames) := h.trans (.of_eq rfl rfl rfl id)

theorem after_continues {r : TcpConnection × List Effect} (hc : s.entries c = some e)
    (hl : e'.loop = e.loop) (hlog : e.log <+: e'.log) : Continues s (s.after c e' r) := by
  have hset : Continues s (s.setEntry c { e' with conn := r.1 }) :=
    Continues.refl.setEntry hc hl hlog
  exact (hset.enqueue _ _).setStack _ _

theorem execute_continues {w : WriteResult} {f : Functor} (hc : s.entries c = some e)
    (ht : s.execute c e' w f = .ok t) (hl : e'.loop = e.loop) (hlog : e.log <+: e'.log) :
    Continues s t := by
  cases f with
  | sendInLoop | forceCloseInLoop =>
    obtain ⟨r, -, rfl⟩ := map_eq_ok ht
    exact after_continues hc hl hlog
  | shutdownInLoop | startReadInLoop | stopReadInLoop =>
    cases ht
    exact after_continues hc hl hlog
  | writeCompleteCallback | highWaterMarkCallback =>
    cases ht
    exact .refl

theorem call_continues {i : Option ι} {r : TcpConnection × List Effect} (hc : s.entries c = some e)
    (ht : s.call i c e r = .ok t) : Continues s t := by
  unfold call at ht
  split at ht
  · split at ht
    · exact execute_continues hc ht rfl List.prefix_rfl
    · cases ht
      exact after_continues hc rfl List.prefix_rfl
  · cases ht
    exact after_continues hc rfl List.prefix_rfl

theorem connectionEstablished_continues (hc : s.entries c = some e)
    (ht : s.connectionEstablished c e = .ok t) : Continues s t := by
  obtain ⟨r, -, rfl⟩ := map_eq_ok ht
  exact after_continues hc rfl (List.prefix_append ..)

theorem removeConnectionInLoop_continues (ht : s.removeConnectionInLoop c = .ok t) :
    Continues s t := by
  obtain ⟨-, ht⟩ := check_bind_eq_ok ht
  obtain ⟨-, ht⟩ := check_bind_eq_ok ht
  simp only at ht
  split at ht <;> cases ht <;> exact .of_eq rfl rfl rfl id

theorem removeConnection_continues {i : ι} (ht : s.removeConnection i c = .ok t) :
    Continues s t := by
  obtain ⟨-, ht⟩ := check_bind_eq_ok ht
  split at ht
  · exact removeConnectionInLoop_continues ht
  · cases ht
    exact .of_eq rfl rfl rfl id

theorem proceed_continues {i : ι} (ht : s.proceed i = .ok t) : Continues s t := by
  unfold proceed at ht
  split at ht
  · cases ht
    exact .refl
  · cases ht
    exact (Continues.refl.setStack _ _).record _ _
  · exact (Continues.refl.setStack _ _).trans (removeConnection_continues ht)
  · split at ht
    · next hc =>
      obtain ⟨conn, -, ht⟩ := bind_eq_ok ht
      cases ht
      refine ((Continues.refl.setStack _ _).setEntry hc ?_ ?_).record _ _
      · rfl
      · exact List.prefix_rfl
    · cases ht
      exact Continues.refl.setStack _ _
  · cases ht
    exact .of_eq rfl rfl rfl fun h => nomatch h
  · simp only at ht
    split at ht
    · next hc =>
      split at ht
      · cases ht
        exact (Continues.refl.setStack _ _).trans (after_continues hc rfl List.prefix_rfl)
      · cases ht
        exact (Continues.refl.setStack _ _).enqueue _ _
    · cases ht
      exact Continues.refl.setStack _ _

theorem runFunctor_continues {i : ι} {w : WriteResult} (ht : s.runFunctor i w = .ok t) :
    Continues s t := by
  unfold runFunctor at ht
  split at ht
  · cases ht
    exact .refl
  · next task tasks hq =>
    have htail : Continues s { s with queue := Function.update s.queue i tasks } :=
      .of_eq rfl rfl rfl id
    refine htail.trans ?_
    simp only at ht
    cases task with
    | connectionEstablished c =>
      simp only at ht
      split at ht
      · next hc => exact connectionEstablished_continues hc ht
      · cases ht
        exact .refl
    | connectionDestroyed c =>
      simp only at ht
      split at ht
      · next hc =>
        cases ht
        exact after_continues hc rfl List.prefix_rfl
      · cases ht
        exact .refl
    | removeConnectionInLoop c => exact removeConnectionInLoop_continues ht
    | functor c f =>
      simp only at ht
      split at ht
      · next hc => exact execute_continues hc ht rfl List.prefix_rfl
      · cases ht
        exact .refl

theorem connStep_continues {x : ServerLabel ι} (hc : s.entries c = some e)
    (ht : s.connStep c e x = .ok t) : Continues s t := by
  cases x with
  | newConnection | proceed | runFunctor | destroy =>
    cases ht
    exact .refl
  | handleRead d r =>
    obtain ⟨-, ht⟩ | rfl := ite_eq_ok ht
    · obtain ⟨r, -, rfl⟩ := map_eq_ok ht
      exact after_continues hc rfl List.prefix_rfl
    · exact .refl
  | handleWrite d w =>
    obtain ⟨-, ht⟩ | rfl := ite_eq_ok ht
    · obtain ⟨r, -, rfl⟩ := map_eq_ok ht
      exact after_continues hc rfl List.prefix_rfl
    · exact .refl
  | send i d message w =>
    obtain ⟨r, -, ht⟩ := bind_eq_ok ht
    exact call_continues hc ht
  | shutdown i d => exact call_continues hc ht
  | forceClose i d => exact call_continues hc ht

theorem step_continues {x : ServerLabel ι} (hx : ∀ io sockfd, x ≠ .newConnection io sockfd)
    (ht : s.step x = .ok t) : Continues s t := by
  cases x with
  | newConnection io sockfd => exact absurd rfl (hx io sockfd)
  | proceed i => exact proceed_continues ht
  | runFunctor i w =>
    obtain ⟨-, ht⟩ | rfl := ite_eq_ok ht
    · exact runFunctor_continues ht
    · exact .refl
  | destroy =>
    obtain ⟨-, ht⟩ | rfl := ite_eq_ok ht
    · cases ht
      exact .of_eq rfl rfl rfl fun h => nomatch h
    · exact .refl
  | handleRead c | handleWrite c | send _ c | shutdown _ c | forceClose _ c =>
    simp only [step] at ht
    split at ht
    · next hc => exact connStep_continues hc ht
    · cases ht
      exact .refl

theorem newConnection_loops {io : ι} {sockfd : ℕ} (ht : s.newConnection io sockfd = .ok t) :
    t.base = s.base ∧ t.nextConnid = s.nextConnid + 1 ∧
      ∀ c, (t.entries c).map Entry.loop =
        if c = s.nextConnid then some io else (s.entries c).map Entry.loop := by
  obtain ⟨conn, -, ht⟩ := bind_eq_ok ht
  simp only at ht
  split at ht
  · have hentry : (s.register ⟨io, { conn with
        writeCompleteCallback := s.writeCompleteCallback }, []⟩).entries s.nextConnid = some _ :=
      Function.update_self ..
    have hkeeps := connectionEstablished_continues hentry ht
    exact ⟨hkeeps.base, hkeeps.nextConnid, fun c => (hkeeps.loops c).trans (register_loops c)⟩
  · cases ht
    exact ⟨rfl, rfl, fun c => register_loops c⟩

theorem step_base {x : ServerLabel ι} (ht : s.step x = .ok t) : t.base = s.base := by
  by_cases hn : ∃ io sockfd, x = .newConnection io sockfd
  · obtain ⟨io, sockfd, rfl⟩ := hn
    obtain ⟨-, ht⟩ | rfl := ite_eq_ok ht
    · exact (newConnection_loops ht).1
    · rfl
  · exact (step_continues (fun io sockfd heq => hn ⟨io, sockfd, heq⟩) ht).base

end Continues

/-- New frames that satisfy `P` stand for the top of a stack, and no more of them are the
destructor's than there were. -/
def Replaces (P : Frame → Prop) (fs gs : List Frame) : Prop :=
  ∃ top new old, fs = top ++ old ∧ gs = new ++ old ∧ (∀ f ∈ new, P f) ∧
    new.countP Frame.isTeardown ≤ top.countP Frame.isTeardown

section Stacks

variable {P Q : Frame → Prop} {f : Frame} {fs gs new : List Frame}

theorem Replaces.refl : Replaces P fs fs := ⟨[], [], fs, rfl, rfl, by simp, le_rfl⟩

theorem Replaces.push (h : Replaces P fs gs) (hnew : ∀ f ∈ new, P f)
    (hcount : new.countP Frame.isTeardown = 0) : Replaces P fs (new ++ gs) := by
  obtain ⟨top, new', old, hfs, rfl, hnew', hle⟩ := h
  refine ⟨top, new ++ new', old, hfs, (List.append_assoc ..).symm, fun f hf => ?_, ?_⟩
  · rcases List.mem_append.mp hf with hf | hf
    · exact hnew f hf
    · exact hnew' f hf
  · rw [List.countP_append]
    omega

theorem Replaces.mono (h : Replaces P fs gs) (hpq : ∀ f, P f → Q f) : Replaces Q fs gs := by
  obtain ⟨top, new, old, hfs, hgs, hnew, hle⟩ := h
  exact ⟨top, new, old, hfs, hgs, fun f hf => hpq f (hnew f hf), hle⟩

theorem replaces_tail : Replaces P (f :: fs) fs := ⟨[f], [], fs, rfl, rfl, by simp, by simp⟩

theorem Replaces.mem (h : Replaces P fs gs) (hf : f ∈ gs) : f ∈ fs ∨ P f := by
  obtain ⟨top, new, old, rfl, rfl, hnew, -⟩ := h
  rcases List.mem_append.mp hf with hf | hf
  · exact .inr (hnew f hf)
  · exact .inl (List.mem_append_right _ hf)

theorem Replaces.countP_le (h : Replaces P fs gs) :
    gs.countP Frame.isTeardown ≤ fs.countP Frame.isTeardown := by
  obtain ⟨top, new, old, rfl, rfl, -, hle⟩ := h
  simp only [List.countP_append]
  omega

end Stacks

section Methods

variable {c : TcpConnection} {r : TcpConnection × List Effect} {w : WriteResult}

def Keeps (fx : List Effect) : Prop := Effect.removeChannel ∉ fx

theorem sendInLoop_keeps {data : List Byte} (h : c.sendInLoop data w = .ok r) : Keeps r.2 := by
  have hdirect : Keeps (if c.writesDirectly then c.directWrite data w else []) := by
    unfold TcpConnection.directWrite TcpConnection.queueWriteComplete
    cases w <;> simp only [Keeps] <;> split <;> simp
  unfold TcpConnection.sendInLoop at h
  split at h
  · cases h
    simp [Keeps]
  · obtain ⟨-, h⟩ := check_bind_eq_ok h
    obtain ⟨-, h⟩ | rfl := ite_eq_ok h
    · obtain ⟨c', -, h⟩ := bind_eq_ok h
      cases h
      have hmark : Keeps (c.queueHighWaterMark (data.length -
          if c.writesDirectly then w.count else 0)) := by
        unfold TcpConnection.queueHighWaterMark
        simp only [Keeps]
        split <;> simp
      exact fun hmem => (List.mem_append.mp hmem).elim hdirect hmark
    · exact hdirect

theorem send_keeps {inLoopThread : Bool} {message : List Byte}
    (h : c.send inLoopThread message w = .ok r) : Keeps r.2 := by
  unfold TcpConnection.send at h
  split at h
  · split at h
    · exact sendInLoop_keeps h
    · cases h
      simp [Keeps]
  · cases h
    simp [Keeps]

theorem shutdownInLoop_keeps : Keeps c.shutdownInLoop := by
  unfold TcpConnection.shutdownInLoop
  split <;> simp [Keeps]

theorem shutdown_keeps : Keeps c.shutdown.2 := by
  unfold TcpConnection.shutdown
  split <;> simp [Keeps]

theorem forceClose_keeps : Keeps c.forceClose.2 := by
  unfold TcpConnection.forceClose
  split <;> simp [Keeps]

theorem connectionEstablished_keeps (h : c.connectionEstablished = .ok r) : Keeps r.2 := by
  obtain ⟨-, h⟩ := check_bind_eq_ok h
  cases h
  simp [Keeps]

theorem handleClose_keeps (h : c.handleClose = .ok r) : Keeps r.2 := by
  obtain ⟨-, h⟩ := check_bind_eq_ok h
  cases h
  simp [Keeps]

theorem forceCloseInLoop_keeps (h : c.forceCloseInLoop = .ok r) : Keeps r.2 := by
  unfold TcpConnection.forceCloseInLoop at h
  split at h
  · exact handleClose_keeps h
  · cases h
    simp [Keeps]

theorem handleRead_keeps {x : ReadvResult} (h : c.handleRead x = .ok r) : Keeps r.2 := by
  obtain ⟨⟨inputBuffer, n, errno⟩, -, h⟩ := bind_eq_ok h
  simp only at h
  split at h
  · cases h
    simp [Keeps]
  · split at h
    · exact handleClose_keeps h
    · cases h
      simp [Keeps]

theorem handleWrite_keeps (h : c.handleWrite w = .ok r) : Keeps r.2 := by
  unfold TcpConnection.handleWrite at h
  split at h
  · split at h
    · obtain ⟨outputBuffer, -, h⟩ := bind_eq_ok h
      simp only at h
      split at h
      · cases h
        unfold TcpConnection.queueWriteComplete TcpConnection.shutdownInLoop
        simp only [Keeps]
        split <;> split <;> simp
      · cases h
        simp [Keeps]
    · cases h
      simp [Keeps]
  · cases h
    simp [Keeps]

end Methods

/-- What a step can leave on the stack of thread `j` besides calls. -/
def Leaves (s : TcpServer ι) (x : ServerLabel ι) (j : ι) (f : Frame) : Prop :=
  match x with
  | .runFunctor i _ => i = j ∧ ∃ c, f = .removeChannel c
  | .proceed i => i = j ∧ ∃ c rest frames, s.stack i = .destroying (c :: rest) :: frames ∧
      (f = .removeChannel c ∨ f = .destroying rest)
  | _ => False

section Frames

variable {s t : TcpServer ι} {c : ℕ} {e e' : Entry ι} {r : TcpConnection × List Effect} {i j : ι}
  {P : Frame → Prop}

theorem frame_cases {x : Effect} {f : Frame} (h : x.frame c = some f) :
    f.isTeardown = false ∧ (f.isCall = true ∨ f = .removeChannel c ∧ x = .removeChannel) := by
  cases x <;> cases h <;> simp [Frame.isTeardown, Frame.isCall]

theorem record_stack {x : LifeEvent} : (s.record c x).stack = s.stack := by
  unfold record
  split <;> rfl

variable [DecidableEq ι]

theorem after_replaces {fs : List Frame} (hs : Replaces P fs (s.stack j))
    (h : ∀ x ∈ r.2, ∀ f, x.frame c = some f → e.loop = j → P f) :
    Replaces P fs ((s.after c e r).stack j) := by
  by_cases hj : j = e.loop
  · subst hj
    have heq : (s.after c e r).stack e.loop = r.2.filterMap (Effect.frame c) ++ s.stack e.loop :=
      Function.update_self ..
    rw [heq]
    refine hs.push (fun f hf => ?_) ?_
    · obtain ⟨x, hx, hframe⟩ := List.mem_filterMap.mp hf
      exact h x hx f hframe rfl
    · rw [List.countP_eq_zero]
      intro f hf
      obtain ⟨x, -, hframe⟩ := List.mem_filterMap.mp hf
      simp [(frame_cases hframe).1]
  · have heq : (s.after c e r).stack j = s.stack j := Function.update_of_ne hj ..
    rw [heq]
    exact hs

theorem after_calls (h : Keeps r.2) :
    Replaces (·.isCall = true) (s.stack j) ((s.after c e r).stack j) := by
  refine after_replaces .refl fun x hx f hf _ => (frame_cases hf).2.resolve_right ?_
  rintro ⟨-, rfl⟩
  exact h hx

theorem execute_calls {w : WriteResult} {f : Functor} (ht : s.execute c e w f = .ok t) :
    Replaces (·.isCall = true) (s.stack j) (t.stack j) := by
  cases f with
  | sendInLoop =>
    obtain ⟨r, hr, rfl⟩ := map_eq_ok ht
    exact after_calls (sendInLoop_keeps hr)
  | forceCloseInLoop =>
    obtain ⟨r, hr, rfl⟩ := map_eq_ok ht
    exact after_calls (forceCloseInLoop_keeps hr)
  | shutdownInLoop =>
    cases ht
    exact after_calls shutdownInLoop_keeps
  | startReadInLoop | stopReadInLoop =>
    cases ht
    exact after_calls List.not_mem_nil
  | writeCompleteCallback | highWaterMarkCallback =>
    cases ht
    exact .refl

theorem call_calls {k : Option ι} (hr : Keeps r.2) (ht : s.call k c e r = .ok t) :
    Replaces (·.isCall = true) (s.stack j) (t.stack j) := by
  unfold call at ht
  split at ht
  · split at ht
    · exact execute_calls ht
    · cases ht
      exact after_calls hr
  · cases ht
    exact after_calls hr

theorem connStep_calls {x : ServerLabel ι} (ht : s.connStep c e x = .ok t) :
    Replaces (·.isCall = true) (s.stack j) (t.stack j) := by
  cases x with
  | newConnection | proceed | runFunctor | destroy =>
    cases ht
    exact .refl
  | handleRead d r =>
    obtain ⟨-, ht⟩ | rfl := ite_eq_ok ht
    · obtain ⟨r, hr, rfl⟩ := map_eq_ok ht
      exact after_calls (handleRead_keeps hr)
    · exact .refl
  | handleWrite d w =>
    obtain ⟨-, ht⟩ | rfl := ite_eq_ok ht
    · obtain ⟨r, hr, rfl⟩ := map_eq_ok ht
      exact after_calls (handleWrite_keeps hr)
    · exact .refl
  | send k d message w =>
    obtain ⟨r, hr, ht⟩ := bind_eq_ok ht
    exact call_calls (send_keeps hr) ht
  | shutdown k d => exact call_calls shutdown_keeps ht
  | forceClose k d => exact call_calls forceClose_keeps ht

theorem newConnection_calls {io : ι} {sockfd : ℕ} (ht : s.newConnection io sockfd = .ok t) :
    Replaces (·.isCall = true) (s.stack j) (t.stack j) := by
  obtain ⟨conn, -, ht⟩ := bind_eq_ok ht
  simp only at ht
  split at ht
  · obtain ⟨r, hr, rfl⟩ := map_eq_ok ht
    exact after_calls (s := s.register _) (connectionEstablished_keeps hr)
  · cases ht
    exact .refl

theorem removeConnectionInLoop_stack (ht : s.removeConnectionInLoop c = .ok t) :
    t.stack = s.stack := by
  obtain ⟨-, ht⟩ := check_bind_eq_ok ht
  obtain ⟨-, ht⟩ := check_bind_eq_ok ht
  simp only at ht
  split at ht <;> cases ht <;> rfl

theorem removeConnection_stack (ht : s.removeConnection i c = .ok t) : t.stack = s.stack := by
  obtain ⟨-, ht⟩ := check_bind_eq_ok ht
  split at ht
  · exact removeConnectionInLoop_stack ht
  · cases ht
    rfl

theorem setStack_replaces {frames : List Frame} (h : Replaces P (s.stack i) frames) :
    Replaces P (s.stack j) ((s.setStack i frames).stack j) := by
  by_cases hj : j = i
  · subst hj
    have heq : (s.setStack j frames).stack j = frames := Function.update_self ..
    rw [heq]
    exact h
  · have heq : (s.setStack i frames).stack j = s.stack j := Function.update_of_ne hj ..
    rw [heq]
    exact .refl

theorem pop_replaces {f : Frame} {frames : List Frame} (hst : s.stack i = f :: frames) :
    Replaces P (s.stack j) ((s.setStack i frames).stack j) :=
  setStack_replaces (hst ▸ replaces_tail)

/-- Every frame of `~TcpServer` and every `ConnectionDestroyed` is with the loop it belongs to. -/
structure Placed (s : TcpServer ι) : Prop where
  teardown : ∀ i rest, .destroying rest ∈ s.stack i → i = s.base
  destroyed : ∀ i c e, .connectionDestroyed c ∈ s.queue i → s.entries c = some e → e.loop = i

theorem proceed_replaces (h : s.Placed) (ht : s.proceed i = .ok t) :
    Replaces (fun f => f.isCall = true ∨ s.Leaves (.proceed i) j f) (s.stack j) (t.stack j) := by
  unfold proceed at ht
  split at ht
  · cases ht
    exact .refl
  · next hst =>
    cases ht
    rw [record_stack]
    exact pop_replaces hst
  · next hst =>
    rw [removeConnection_stack ht]
    exact pop_replaces hst
  · next hst =>
    split at ht
    · obtain ⟨conn, -, ht⟩ := bind_eq_ok ht
      cases ht
      rw [record_stack]
      exact pop_replaces hst
    · cases ht
      exact pop_replaces hst
  · next hst =>
    cases ht
    exact pop_replaces hst
  · next c rest frames hst =>
    have hi : i = s.base := h.teardown i (c :: rest) (hst ▸ List.mem_cons_self)
    have hmoved : Replaces (fun f => f.isCall = true ∨ s.Leaves (.proceed i) j f) (s.stack j)
        ((s.setStack i (.destroying rest :: frames)).stack j) := by
      by_cases hj : j = i
      · subst hj
        refine setStack_replaces ⟨[.destroying (c :: rest)], [.destroying rest], frames, hst, rfl,
          fun f hf => .inr ⟨rfl, c, rest, frames, hst, .inr (List.mem_singleton.mp hf)⟩, le_rfl⟩
      · have heq : (s.setStack i (.destroying rest :: frames)).stack j = s.stack j :=
          Function.update_of_ne hj ..
        rw [heq]
        exact .refl
    simp only at ht
    split at ht
    · next e hc =>
      split at ht
      · next hb =>
        cases ht
        refine after_replaces hmoved fun x hx f hf hloop => ?_
        refine (frame_cases hf).2.imp id ?_
        rintro ⟨rfl, -⟩
        exact ⟨hi.trans (hb.symm.trans hloop), c, rest, frames, hst, .inl rfl⟩
      · cases ht
        exact hmoved
    · cases ht
      exact hmoved

theorem runFunctor_replaces {w : WriteResult} (h : s.Placed) (ht : s.runFunctor i w = .ok t) :
    Replaces (fun f => f.isCall = true ∨ s.Leaves (.runFunctor i w) j f) (s.stack j)
      (t.stack j) := by
  unfold runFunctor at ht
  split at ht
  · cases ht
    exact .refl
  · next task tasks hq =>
    simp only at ht
    cases task with
    | connectionEstablished c =>
      simp only at ht
      split at ht
      · obtain ⟨r, hr, rfl⟩ := map_eq_ok ht
        exact (after_calls (connectionEstablished_keeps hr)).mono fun _ => .inl
      · cases ht
        exact .refl
    | connectionDestroyed c =>
      simp only at ht
      split at ht
      · next e hc =>
        cases ht
        have hloop : e.loop = i := h.destroyed i c e (hq ▸ List.mem_cons_self) hc
        refine after_replaces .refl fun x hx f hf hj => (frame_cases hf).2.imp id ?_
        rintro ⟨rfl, -⟩
        exact ⟨hloop.symm.trans hj, c, rfl⟩
      · cases ht
        exact .refl
    | removeConnectionInLoop c =>
      rw [removeConnectionInLoop_stack ht]
      exact .refl
    | functor c f =>
      simp only at ht
      split at ht
      · exact (execute_calls ht).mono fun _ => .inl
      · cases ht
        exact .refl

/-- What a step leaves on the stacks. -/
theorem step_replaces {x : ServerLabel ι} (h : s.Placed) (hx : x ≠ .destroy)
    (ht : s.step x = .ok t) :
    Replaces (fun f => f.isCall = true ∨ s.Leaves x j f) (s.stack j) (t.stack j) := by
  cases x with
  | newConnection io sockfd =>
    obtain ⟨-, ht⟩ | rfl := ite_eq_ok ht
    · exact (newConnection_calls ht).mono fun _ => .inl
    · exact .refl
  | proceed i => exact proceed_replaces h ht
  | runFunctor i w =>
    obtain ⟨-, ht⟩ | rfl := ite_eq_ok ht
    · exact runFunctor_replaces h ht
    · exact .refl
  | destroy => exact absurd rfl hx
  | handleRead c | handleWrite c | send _ c | shutdown _ c | forceClose _ c =>
    simp only [step] at ht
    split at ht
    · exact (connStep_calls ht).mono fun _ => .inl
    · cases ht
      exact .refl

end Frames

end TcpServer

end Dwater
