import Mathlib.Logic.Function.Basic
import Dwater.Net.EventLoop
import Dwater.Net.OutputStream

/-! # Graceful shutdown

An established connection, its loop and the threads that call `Send`, `Shutdown`,
`StartRead` and `StopRead`. A call from another thread changes `state_` at once and
queues its functor afterwards. `HandleWrite` looks at `state_` alone, so it may close
the write side while a message of the thread that shut down is still queued; in every
other case the kernel has accepted that thread's messages first.
-/

set_option autoImplicit false
namespace Dwater

open Fallible EventLoop TcpConnection

variable {ι : Type}

/-- Messages with the thread that sent them; `none` is the loop thread. -/
abbrev MessageLog (ι : Type) := List (Option ι × List Byte)

/-- What is known when `ShutdownWrite` is called for the first time. -/
structure Snapshot (ι : Type) where
  backlog : List Byte
  accepted : List Byte
  executed : MessageLog ι

/--
A connection with its loop. `inflight t` is the functor that thread `t` is about to push.
`sent` lists the messages of the `Send` calls made before the `Shutdown` call that took effect,
`executed` those that have reached `SendInLoop`, and `shutBy` is the thread of that `Shutdown`.
-/
structure ConnSystem (ι : Type) where
  conn : TcpConnection
  loop : EventLoop (Option ι × Functor)
  inflight : ι → Option Functor
  accepted : List Byte
  sent : MessageLog ι
  executed : MessageLog ι
  shutBy : Option (Option ι)
  firstShutdown : Option (Snapshot ι)

/-- A step of the loop thread, a call by a thread, or the push that completes a call. -/
inductive ConnLabel (ι : Type)
  | act (a : LoopAction)
  | send (t : Option ι) (message : List Byte) (w : WriteResult)
  | shutdown (t : Option ι)
  | startRead (t : Option ι)
  | stopRead (t : Option ι)
  | queue (t : ι)
  | runFunctor (w : WriteResult)
  | handleWrite (w : WriteResult)

namespace ConnSystem

/-- An established connection before any call. -/
def start (conn : TcpConnection) : ConnSystem ι :=
  { conn := conn, loop := .new, inflight := fun _ => none, accepted := [], sent := [],
    executed := [], shutBy := none, firstShutdown := none }

def snapshot (s : ConnSystem ι) : Snapshot ι :=
  ⟨s.conn.outputBuffer.content, s.accepted, s.executed⟩

def emit (s : ConnSystem ι) : Effect → ConnSystem ι
  | .write data => { s with accepted := s.accepted ++ data }
  | .shutdownWrite => { s with firstShutdown := s.firstShutdown <|> some s.snapshot }
  | .queueInLoop f => { s with loop := s.loop.queueInLoop (none, f) }
  | .runInLoop _ | .connectionCallback _ | .messageCallback | .closeCallback | .removeChannel => s

/-- Keep the connection a method leaves and carry out its effects. -/
def after (s : ConnSystem ι) (r : TcpConnection × List Effect) : ConnSystem ι :=
  r.2.foldl emit { s with conn := r.1 }

def execute (s : ConnSystem ι) (t : Option ι) (w : WriteResult) :
    Functor → Except Fault (ConnSystem ι)
  | .sendInLoop message =>
    { s with executed := s.executed ++ [(t, message)] }.after <$> s.conn.sendInLoop message w
  | .shutdownInLoop => return s.after (s.conn, s.conn.shutdownInLoop)
  | .forceCloseInLoop => s.after <$> s.conn.forceCloseInLoop
  | .startReadInLoop => return { s with conn := s.conn.startReadInLoop }
  | .stopReadInLoop => return { s with conn := s.conn.stopReadInLoop }
  | .writeCompleteCallback | .highWaterMarkCallback _ => return s

variable [DecidableEq ι]

/-- `RunInLoop` called by thread `t`: the loop thread runs the functor there and then. -/
def runInLoop (s : ConnSystem ι) (t : Option ι) (w : WriteResult) (f : Functor) :
    Except Fault (ConnSystem ι) :=
  match t with
  | none => s.execute none w f
  | some u => return { s with inflight := Function.update s.inflight u (some f) }

def effectOf (t : Option ι) (w : WriteResult) (s : ConnSystem ι) :
    Effect → Except Fault (ConnSystem ι)
  | .runInLoop f => s.runInLoop t w f
  | e => return s.emit e

def canCall (s : ConnSystem ι) : Option ι → Bool
  | none => s.loop.runsUserCode
  | some u => (s.inflight u).isNone

def logSent (s : ConnSystem ι) (t : Option ι) (message : List Byte) : ConnSystem ι :=
  { s with sent := if s.shutBy = none then s.sent ++ [(t, message)] else s.sent }

def send (s : ConnSystem ι) (t : Option ι) (message : List Byte) (w : WriteResult) :
    Except Fault (ConnSystem ι) := do
  let (conn, fx) ← s.conn.send t.isNone message w
  let s := s.logSent t message
  let now := t.isNone = true ∧ s.conn.state = .kconnected
  let s := { s with
    conn := conn
    executed := if now then s.executed ++ [(t, message)] else s.executed }
  fx.foldlM (effectOf t w) s

def shutdown (s : ConnSystem ι) (t : Option ι) : Except Fault (ConnSystem ι) :=
  let (conn, fx) := s.conn.shutdown
  let shutBy := if s.conn.state = .kconnected then some t else s.shutBy
  fx.foldlM (effectOf t (.wrote 0)) { s with conn := conn, shutBy := shutBy }

def step (s : ConnSystem ι) : ConnLabel ι → Except Fault (ConnSystem ι)
  | .act a => do
    let loop ← s.loop.advance a
    return { s with loop := loop }
  | .send t message w => if s.canCall t then s.send t message w else return s
  | .shutdown t => if s.canCall t then s.shutdown t else return s
  | .startRead t =>
    if s.canCall t then startRead.foldlM (effectOf t (.wrote 0)) s else return s
  | .stopRead t =>
    if s.canCall t then stopRead.foldlM (effectOf t (.wrote 0)) s else return s
  | .queue u =>
    match s.inflight u with
    | some f =>
      return { s with
        loop := (s.loop.push (some u, f)).wakeup
        inflight := Function.update s.inflight u none }
    | none => return s
  | .runFunctor w =>
    match s.loop.nextFunctor with
    | some ((t, f), loop) => { s with loop := loop }.execute t w f
    | none => return s
  | .handleWrite w =>
    match s.loop.phase with
    | .handling _ => s.after <$> s.conn.handleWrite w
    | _ => return s

/-- The bytes that a functor will hand to `SendInLoop`. -/
def payload : Functor → List Byte
  | .sendInLoop message => message
  | _ => []

def bytesOf (t : Option ι) (log : MessageLog ι) : List Byte :=
  (log.filter fun p => p.1 = t).flatMap Prod.snd

/-- The functors of thread `t` that are still to be run, in the order in which they will be. -/
def queueOf (s : ConnSystem ι) (t : Option ι) : List Functor :=
  (s.loop.todo.filter fun p => p.1 = t).map Prod.snd ++ (t.bind s.inflight).toList

def queuedBytes (s : ConnSystem ι) (t : Option ι) : List Byte := (s.queueOf t).flatMap payload

/--
`ShutdownWrite` was first called with an empty output buffer, when the kernel had accepted
every message executed by then, among them all that the thread which shut down had sent.
-/
def Graceful (s : ConnSystem ι) : Prop :=
  ∀ snap, s.firstShutdown = some snap →
    snap.backlog = [] ∧ snap.accepted = snap.executed.flatMap Prod.snd ∧
      ∃ t, s.shutBy = some t ∧ bytesOf t snap.executed = bytesOf t s.sent

/-- `HandleWrite` with this result empties the output buffer of a connection being shut down. -/
def Drains (s : ConnSystem ι) (w : WriteResult) : Prop :=
  (∃ a, s.loop.phase = .handling a) ∧ s.conn.channel.isWriting = true ∧
    w.count = s.conn.outputBuffer.readableBytes ∧ s.conn.state = .kdisconnecting

/-- The kernel takes at most what it is given, and no failure before the shutdown makes
`SendInLoop` give its message up. -/
def Kernel (s : ConnSystem ι) (len : ℕ) (w : WriteResult) : Prop :=
  w.Within len ∧ (s.firstShutdown = none → w.faultError = false)

/--
Writes behave, and `HandleWrite` does not empty the output buffer for the first shutdown while
bytes of the thread that shut down are still queued.
-/
def DrainsLast (s : ConnSystem ι) : ConnLabel ι → Prop
  | .send _ message w => s.Kernel message.length w
  | .runFunctor w => ∀ t message loop,
      s.loop.nextFunctor = some ((t, .sendInLoop message), loop) → s.Kernel message.length w
  | .handleWrite w => s.Kernel s.conn.outputBuffer.readableBytes w ∧
      (s.Drains w → s.firstShutdown = none → ∀ t, s.shutBy = some t → s.queuedBytes t = [])
  | _ => True

/-- A functor that the loop thread queues for a user callback. -/
def IsCallback : Functor → Prop
  | .writeCompleteCallback | .highWaterMarkCallback _ => True
  | _ => False

/-- A functor that neither sends nor shuts down. -/
def Harmless (f : Functor) : Prop :=
  payload f = [] ∧ f ≠ .shutdownInLoop ∧ f ≠ .forceCloseInLoop

theorem IsCallback.harmless {f : Functor} (h : IsCallback f) : Harmless f := by
  cases f with
  | writeCompleteCallback => exact ⟨rfl, by decide, by decide⟩
  | highWaterMarkCallback n => exact ⟨rfl, by simp, by simp⟩
  | _ => cases h

@[simp] theorem bytesOf_append (t : Option ι) (log more : MessageLog ι) :
    bytesOf t (log ++ more) = bytesOf t log ++ bytesOf t more := by simp [bytesOf]

@[simp] theorem bytesOf_same (t : Option ι) (message : List Byte) :
    bytesOf t [(t, message)] = message := by simp [bytesOf]

theorem bytesOf_other {t u : Option ι} (h : t ≠ u) (message : List Byte) :
    bytesOf u [(t, message)] = [] := by simp [bytesOf, h]

/--
How the queues `Q` of the threads relate to the logs: what a thread sent is executed or queued,
nothing follows a thread's `ShutdownInLoop` that would send, and only the thread whose `Shutdown`
took effect has queued one.
-/
structure Disciplined (Q : Option ι → List Functor) (sent executed : MessageLog ι)
    (shutBy : Option (Option ι)) : Prop where
  queued : ∀ t, bytesOf t executed ++ (Q t).flatMap payload = bytesOf t sent
  own : ∀ f ∈ Q none, IsCallback f
  noClose : ∀ t, Functor.forceCloseInLoop ∉ Q t
  ordered : ∀ t, (Q t).Pairwise fun f g => f = .shutdownInLoop → payload g = []
  shutter : ∀ t, Functor.shutdownInLoop ∈ Q t → shutBy = some t

namespace Disciplined

variable {Q Q' : Option ι → List Functor} {sent executed : MessageLog ι}
  {shutBy : Option (Option ι)}

theorem own_payload (h : Disciplined Q sent executed shutBy) : (Q none).flatMap payload = [] := by
  simp only [List.flatMap_eq_nil_iff]
  exact fun f hf => (h.own f hf).harmless.1

/-- Harmless functors at the end of the queues change nothing. -/
theorem extend (h : Disciplined Q sent executed shutBy)
    (hQ : ∀ t, ∃ more, Q' t = Q t ++ more ∧ (∀ f ∈ more, Harmless f) ∧
      (t = none → ∀ f ∈ more, IsCallback f)) : Disciplined Q' sent executed shutBy := by
  constructor
  · intro t
    obtain ⟨more, he, hm, -⟩ := hQ t
    have hnil : more.flatMap payload = [] := by
      simp only [List.flatMap_eq_nil_iff]
      exact fun f hf => (hm f hf).1
    rw [he, List.flatMap_append, hnil, List.append_nil]
    exact h.queued t
  · intro f hf
    obtain ⟨more, he, -, hm⟩ := hQ none
    rw [he] at hf
    rcases List.mem_append.mp hf with hf | hf
    · exact h.own f hf
    · exact hm rfl f hf
  · intro t hf
    obtain ⟨more, he, hm, -⟩ := hQ t
    rw [he] at hf
    rcases List.mem_append.mp hf with hf | hf
    · exact h.noClose t hf
    · exact (hm _ hf).2.2 rfl
  · intro t
    obtain ⟨more, he, hm, -⟩ := hQ t
    rw [he, List.pairwise_append]
    refine ⟨h.ordered t, ?_, fun f _ g hg _ => (hm g hg).1⟩
    exact List.pairwise_of_forall_mem_list fun f _ g hg _ => (hm g hg).1
  · intro t hf
    obtain ⟨more, he, hm, -⟩ := hQ t
    rw [he] at hf
    rcases List.mem_append.mp hf with hf | hf
    · exact h.shutter t hf
    · exact absurd rfl (hm _ hf).2.1

theorem not_shutting (h : Disciplined Q sent executed none) (t : Option ι) :
    Functor.shutdownInLoop ∉ Q t := fun hf => by cases h.shutter t hf

theorem enqueue (h : Disciplined Q sent executed shutBy) (u : ι) (f : Functor)
    {sent' : MessageLog ι} {shutBy' : Option (Option ι)}
    (hs : ∀ t, bytesOf t sent' = bytesOf t sent ++ if t = some u then payload f else [])
    (hc : f ≠ .forceCloseInLoop) (hn : shutBy = none)
    (hf : f = .shutdownInLoop → shutBy' = some (some u)) :
    Disciplined (Function.update Q (some u) (Q (some u) ++ [f])) sent' executed shutBy' := by
  subst hn
  have hno := h.not_shutting
  constructor
  · intro t
    rw [hs t, ← h.queued t]
    by_cases ht : t = some u
    · subst ht; simp
    · simp [ht]
  · simpa using h.own
  · intro t
    by_cases ht : t = some u
    · subst ht
      simp [h.noClose (some u), hc.symm]
    · simpa [Function.update_of_ne ht] using h.noClose t
  · intro t
    by_cases ht : t = some u
    · subst ht
      rw [Function.update_self, List.pairwise_append]
      refine ⟨h.ordered _, List.pairwise_singleton _ _, fun g hg _ _ hsd => ?_⟩
      exact absurd (hsd ▸ hg) (hno _)
    · simpa [Function.update_of_ne ht] using h.ordered t
  · intro t hmem
    by_cases ht : t = some u
    · subst ht
      rw [Function.update_self, List.mem_append, List.mem_singleton] at hmem
      rcases hmem with hmem | hmem
      · exact absurd hmem (hno _)
      · exact hf hmem.symm
    · rw [Function.update_of_ne ht] at hmem
      exact absurd hmem (hno t)

theorem dequeue (h : Disciplined Q sent executed shutBy) {t : Option ι} {f : Functor}
    (hQ : Q = Function.update Q' t (f :: Q' t)) {executed' : MessageLog ι}
    (he : ∀ u, bytesOf u executed' = bytesOf u executed ++ if u = t then payload f else []) :
    Disciplined Q' sent executed' shutBy := by
  have hself : Q t = f :: Q' t := by rw [hQ, Function.update_self]
  have hsub : ∀ u, ∀ g ∈ Q' u, g ∈ Q u := by
    intro u g hg
    by_cases hu : u = t
    · subst hu; rw [hself]; exact List.mem_cons_of_mem _ hg
    · rwa [hQ, Function.update_of_ne hu]
  constructor
  · intro u
    rw [he u, ← h.queued u]
    by_cases hu : u = t
    · subst hu; simp [hself]
    · simp [hQ, hu]
  · exact fun g hg => h.own g (hsub none g hg)
  · exact fun u hu => h.noClose u (hsub u _ hu)
  · intro u
    have ho := h.ordered u
    by_cases hu : u = t
    · subst hu
      rw [hself, List.pairwise_cons] at ho
      exact ho.2
    · rwa [hQ, Function.update_of_ne hu] at ho
  · exact fun u hu => h.shutter u (hsub u _ hu)

/-- When a thread's `ShutdownInLoop` is at the front of its queue, all its bytes are executed. -/
theorem executed_of_shutdown (h : Disciplined Q sent executed shutBy) {t : Option ι}
    {rest : List Functor} (hQ : Q t = .shutdownInLoop :: rest) :
    bytesOf t executed = bytesOf t sent := by
  have ho := h.ordered t
  rw [hQ, List.pairwise_cons] at ho
  have hnil : rest.flatMap payload = [] := by
    simp only [List.flatMap_eq_nil_iff]
    exact fun g hg => ho.1 g hg rfl
  simpa [hQ, hnil, payload] using h.queued t

end Disciplined

/-- What output effects change: the accepted bytes, and callbacks at the end of the queue. -/
structure Emitted (s s' : ConnSystem ι) (fx : List Effect) : Prop where
  conn_eq : s'.conn = s.conn
  inflight_eq : s'.inflight = s.inflight
  sent_eq : s'.sent = s.sent
  executed_eq : s'.executed = s.executed
  shutBy_eq : s'.shutBy = s.shutBy
  firstShutdown_eq : s'.firstShutdown = s.firstShutdown
  accepted_eq : s'.accepted = s.accepted ++ written fx
  coherent : s.loop.Coherent → s'.loop.Coherent
  todo_eq : ∃ fs : List Functor, (∀ f ∈ fs, IsCallback f) ∧
    s'.loop.todo = s.loop.todo ++ fs.map (Prod.mk none)

variable {s s' : ConnSystem ι}

omit [DecidableEq ι] in
theorem emit_emitted {e : Effect} (h : Effect.IsOutput e) : Emitted s (s.emit e) [e] := by
  match e, h with
  | .write data, _ =>
    exact ⟨rfl, rfl, rfl, rfl, rfl, rfl, by simp [emit, written], id, [], by simp, by simp [emit]⟩
  | .queueInLoop .writeCompleteCallback, _ =>
    exact ⟨rfl, rfl, rfl, rfl, rfl, rfl, by simp [emit, written], fun h => h.queueInLoop _,
      [.writeCompleteCallback], by simp [IsCallback], by simp [emit]⟩
  | .queueInLoop (.highWaterMarkCallback n), _ =>
    exact ⟨rfl, rfl, rfl, rfl, rfl, rfl, by simp [emit, written], fun h => h.queueInLoop _,
      [.highWaterMarkCallback n], by simp [IsCallback], by simp [emit]⟩

omit [DecidableEq ι] in
theorem foldl_emit_emitted {fx : List Effect} (h : ∀ e ∈ fx, Effect.IsOutput e) :
    Emitted s (fx.foldl emit s) fx := by
  induction fx generalizing s with
  | nil => exact ⟨rfl, rfl, rfl, rfl, rfl, rfl, by simp, id, [], by simp, by simp⟩
  | cons e fx ih =>
    have h₁ : Emitted s (s.emit e) [e] := emit_emitted (h e List.mem_cons_self)
    have h₂ : Emitted (s.emit e) (fx.foldl emit (s.emit e)) fx :=
      ih fun e he => h e (List.mem_cons_of_mem _ he)
    obtain ⟨fs, hfs, ht₁⟩ := h₁.todo_eq
    obtain ⟨gs, hgs, ht₂⟩ := h₂.todo_eq
    constructor
    · exact h₂.conn_eq.trans h₁.conn_eq
    · exact h₂.inflight_eq.trans h₁.inflight_eq
    · exact h₂.sent_eq.trans h₁.sent_eq
    · exact h₂.executed_eq.trans h₁.executed_eq
    · exact h₂.shutBy_eq.trans h₁.shutBy_eq
    · exact h₂.firstShutdown_eq.trans h₁.firstShutdown_eq
    · rw [List.foldl_cons, h₂.accepted_eq, h₁.accepted_eq, List.append_assoc, ← written_append]
      rfl
    · exact fun hc => h₂.coherent (h₁.coherent hc)
    · refine ⟨fs ++ gs, fun f hf => ?_, ?_⟩
      · rcases List.mem_append.mp hf with hf | hf
        · exact hfs f hf
        · exact hgs f hf
      · rw [List.foldl_cons, ht₂, ht₁, List.map_append, List.append_assoc]

theorem Emitted.queueOf {fx : List Effect} (h : Emitted s s' fx) (t : Option ι) :
    ∃ more, s'.queueOf t = s.queueOf t ++ more ∧ (∀ f ∈ more, Harmless f) ∧
      (t = none → ∀ f ∈ more, IsCallback f) := by
  obtain ⟨fs, hfs, ht⟩ := h.todo_eq
  cases t with
  | none =>
    refine ⟨fs, ?_, fun f hf => (hfs f hf).harmless, fun _ => hfs⟩
    simp [ConnSystem.queueOf, ht, List.filter_map, Function.comp_def]
  | some u =>
    refine ⟨[], ?_, by simp, by simp⟩
    simp [ConnSystem.queueOf, ht, h.inflight_eq]

/-- The parts of the invariant that do not look at the queues. -/
structure Local (s : ConnSystem ι) : Prop where
  coherent : s.loop.Coherent
  output : s.conn.outputBuffer.Inv
  idle : s.conn.channel.isWriting = false → s.conn.outputBuffer.content = []
  phase : (s.conn.state = .kconnected ∧ s.shutBy = none ∧ s.firstShutdown = none) ∨
    (s.conn.state = .kdisconnecting ∧ s.shutBy ≠ none)
  stream : s.firstShutdown = none →
    s.accepted ++ s.conn.outputBuffer.content = s.executed.flatMap Prod.snd
  graceful : s.Graceful

structure Inv (s : ConnSystem ι) : Prop where
  holds : s.Local
  queues : Disciplined s.queueOf s.sent s.executed s.shutBy

/-- Output effects keep the invariant if the bytes they write complete the stream. -/
theorem Inv.emitted {fx : List Effect} (he : Emitted s s' fx) (hc : s.loop.Coherent)
    (ho : s.conn.outputBuffer.Inv)
    (hi : s.conn.channel.isWriting = false → s.conn.outputBuffer.content = [])
    (hp : (s.conn.state = .kconnected ∧ s.shutBy = none ∧ s.firstShutdown = none) ∨
      (s.conn.state = .kdisconnecting ∧ s.shutBy ≠ none))
    (hs : s.firstShutdown = none →
      s.accepted ++ written fx ++ s.conn.outputBuffer.content = s.executed.flatMap Prod.snd)
    (hg : s.Graceful) (hq : Disciplined s.queueOf s.sent s.executed s.shutBy) : s'.Inv := by
  constructor
  · constructor
    · exact he.coherent hc
    · rwa [he.conn_eq]
    · rwa [he.conn_eq]
    · rwa [he.conn_eq, he.shutBy_eq, he.firstShutdown_eq]
    · rwa [he.conn_eq, he.firstShutdown_eq, he.accepted_eq, he.executed_eq]
    · rwa [Graceful, he.firstShutdown_eq, he.shutBy_eq, he.sent_eq]
  · rw [he.sent_eq, he.executed_eq, he.shutBy_eq]
    exact hq.extend he.queueOf

theorem Inv.shutdownWrite (h : s.Inv) (hb : s.conn.outputBuffer.content = []) {t : Option ι}
    (ht : s.shutBy = some t)
    (hx : s.firstShutdown = none → bytesOf t s.executed = bytesOf t s.sent) :
    (s.emit .shutdownWrite).Inv := by
  have hl := h.holds
  refine ⟨⟨hl.coherent, hl.output, hl.idle, ?_, ?_, ?_⟩, h.queues⟩
  · rcases hl.phase with hp | hp
    · rw [hp.2.1] at ht
      cases ht
    · exact .inr hp
  · intro hn
    simp [emit] at hn
  · intro snap hsnap
    cases hf : s.firstShutdown with
    | some old =>
      have heq : old = snap := by simpa [emit, hf] using hsnap
      subst heq
      exact hl.graceful old hf
    | none =>
      have heq : s.snapshot = snap := by simpa [emit, hf] using hsnap
      subst heq
      refine ⟨hb, ?_, t, ht, hx hf⟩
      have hstream := hl.stream hf
      rwa [hb, List.append_nil] at hstream

theorem Local.graceful_of_none (h : s.shutBy = none) (hl : s.Local) {s' : ConnSystem ι}
    (hf : s'.firstShutdown = s.firstShutdown) : s'.Graceful := by
  intro snap hsnap
  rcases hl.phase with ⟨-, -, hn⟩ | ⟨-, hs⟩
  · rw [hf, hn] at hsnap
    cases hsnap
  · exact absurd h hs

theorem execute_sendInLoop {t : Option ι} {message : List Byte} {w : WriteResult} (h : s.Local)
    (hd : Disciplined s.queueOf s.sent (s.executed ++ [(t, message)]) s.shutBy)
    (hk : s.Kernel message.length w) : Yields (s.execute t w (.sendInLoop message)) Inv := by
  have hs : s.conn.state ≠ .kdisconnected := by
    rcases h.phase with hp | hp <;> simp [hp.1]
  refine yields_map (sendInLoop_yields h.output.represents hs) fun r hr => ?_
  obtain ⟨q', hq', hw, hi⟩ := hr.backlog
  refine Inv.emitted (foldl_emit_emitted hr.output) h.coherent hq'.1 ?_ ?_ ?_ h.graceful hd
  · intro hidle
    rcases hi with ⟨hch, heq⟩ | ⟨hwr, -⟩
    · rw [hq'.2, heq]
      exact h.idle (hch ▸ hidle)
    · simp [hwr] at hidle
  · simpa only [hr.state_eq] using h.phase
  · intro hf
    have hall := hw (by rw [hk.2 hf, Bool.and_false])
    simp only [List.append_assoc, hq'.2, hall, List.flatMap_append, ← h.stream hf]
    simp

theorem shutdownInLoop_inv {t : Option ι} (h : s.Inv) (ht : s.shutBy = some t)
    (hx : bytesOf t s.executed = bytesOf t s.sent) :
    (s.after (s.conn, s.conn.shutdownInLoop)).Inv := by
  unfold after shutdownInLoop
  cases hw : s.conn.channel.isWriting with
  | true => exact h
  | false => exact h.shutdownWrite (h.holds.idle hw) ht fun _ => hx

theorem Inv.reading (h : s.Inv) {c : TcpConnection} (ho : c.outputBuffer = s.conn.outputBuffer)
    (hs : c.state = s.conn.state) (hw : c.channel.isWriting = s.conn.channel.isWriting) :
    Inv { s with conn := c } := by
  refine ⟨⟨h.holds.coherent, ?_, ?_, ?_, ?_, h.holds.graceful⟩, h.queues⟩
  · simpa only [ho] using h.holds.output
  · simpa only [ho, hw] using h.holds.idle
  · simpa only [hs] using h.holds.phase
  · simpa only [ho] using h.holds.stream

theorem Inv.startReadInLoop (h : s.Inv) : Inv { s with conn := s.conn.startReadInLoop } := by
  unfold TcpConnection.startReadInLoop
  split
  · exact h.reading rfl rfl (Channel.isWriting_enableReading _)
  · exact h

theorem Inv.stopReadInLoop (h : s.Inv) : Inv { s with conn := s.conn.stopReadInLoop } := by
  unfold TcpConnection.stopReadInLoop
  split
  · exact h.reading rfl rfl (Channel.isWriting_disableReading _)
  · exact h

theorem Local.setLoop (h : s.Local) {l : EventLoop (Option ι × Functor)} (hl : l.Coherent)
    (inflight : ι → Option Functor) : Local { s with loop := l, inflight := inflight } :=
  ⟨hl, h.output, h.idle, h.phase, h.stream, h.graceful⟩

theorem execute_inv {t : Option ι} {f : Functor} {w : WriteResult} (h : s.Local)
    {Q : Option ι → List Functor} (hd : Disciplined Q s.sent s.executed s.shutBy)
    (hQ : Q = Function.update s.queueOf t (f :: s.queueOf t))
    (hk : ∀ message, f = .sendInLoop message → s.Kernel message.length w) :
    Yields (s.execute t w f) Inv := by
  have hnil : payload f = [] → s.Inv := fun hf => ⟨h, hd.dequeue hQ (by simp [hf])⟩
  have hmem : f ∈ Q t := by rw [hQ, Function.update_self]; exact List.mem_cons_self
  cases f with
  | sendInLoop message =>
    refine execute_sendInLoop h (hd.dequeue hQ fun u => ?_) (hk message rfl)
    rw [bytesOf_append]
    by_cases hu : u = t
    · subst hu; simp [payload]
    · simp [bytesOf_other (Ne.symm hu), hu]
  | shutdownInLoop =>
    refine yields_pure.mpr (shutdownInLoop_inv (hnil rfl) (hd.shutter t hmem) ?_)
    exact hd.executed_of_shutdown (by rw [hQ, Function.update_self])
  | forceCloseInLoop => exact absurd hmem (hd.noClose t)
  | startReadInLoop => exact yields_pure.mpr (hnil rfl).startReadInLoop
  | stopReadInLoop => exact yields_pure.mpr (hnil rfl).stopReadInLoop
  | writeCompleteCallback => exact yields_pure.mpr (hnil rfl)
  | highWaterMarkCallback n => exact yields_pure.mpr (hnil rfl)

theorem handleWrite_inv {w : WriteResult} (h : s.Inv)
    (hk : s.Kernel s.conn.outputBuffer.readableBytes w)
    (hlast : s.conn.channel.isWriting = true → w.count = s.conn.outputBuffer.readableBytes →
      s.conn.state = .kdisconnecting → s.firstShutdown = none →
      ∀ t, s.shutBy = some t → s.queuedBytes t = []) :
    Yields (s.after <$> s.conn.handleWrite w) Inv := by
  have hl := h.holds
  have hlen := hl.output.length_content
  have hw : w.Within s.conn.outputBuffer.content.length := by rw [hlen]; exact hk.1
  refine yields_map (handleWrite_yields hl.output.represents hw) fun r hr => ?_
  cases hr with
  | idle => exact h
  | some hi _ hlt hb =>
    refine Inv.emitted (foldl_emit_emitted (by simp [Effect.IsOutput])) hl.coherent hb.1 ?_
      hl.phase ?_ hl.graceful h.queues
    · intro hidle
      simp [hi] at hidle
    · intro hf
      simp [hb.2, ← hl.stream hf]
  | @all b hi hall hb =>
    have hout : ∀ e ∈ Effect.write s.conn.outputBuffer.content :: s.conn.queueWriteComplete,
        Effect.IsOutput e := by
      intro e he
      rcases List.mem_cons.mp he with rfl | he
      · trivial
      · exact queueWriteComplete_output he
    have hs : Inv (List.foldl emit
        { s with conn := { s.conn with
          outputBuffer := b, channel := s.conn.channel.disableWriting } }
        (.write s.conn.outputBuffer.content :: s.conn.queueWriteComplete)) := by
      refine Inv.emitted (foldl_emit_emitted hout) hl.coherent hb.1 (fun _ => hb.2) hl.phase ?_
        hl.graceful h.queues
      intro hf
      simp [hb.2, ← hl.stream hf]
    have he := foldl_emit_emitted (s := { s with conn := { s.conn with
      outputBuffer := b, channel := s.conn.channel.disableWriting } }) hout
    unfold after
    rw [List.foldl_append]
    split
    · next hst =>
      rcases hl.phase with hp | ⟨-, hsb⟩
      · rw [hp.1] at hst
        cases hst
      · obtain ⟨t, ht⟩ := Option.ne_none_iff_exists'.mp hsb
        refine hs.shutdownWrite (by rw [he.conn_eq]; exact hb.2) (he.shutBy_eq.trans ht) ?_
        intro hf
        rw [he.executed_eq, he.sent_eq]
        have hnil := hlast hi (hall.trans hlen) hst (he.firstShutdown_eq ▸ hf) t ht
        have hq := h.queues.queued t
        rwa [show (s.queueOf t).flatMap payload = [] from hnil, List.append_nil] at hq
    · exact hs

theorem queueOf_inflight {u : ι} (h : s.inflight u = none) (f : Functor) :
    queueOf { s with inflight := Function.update s.inflight u (some f) } =
      Function.update s.queueOf (some u) (s.queueOf (some u) ++ [f]) := by
  funext t
  by_cases ht : t = some u
  · subst ht
    simp [queueOf, h]
  · cases t with
    | none => simp [queueOf]
    | some v =>
      have hv : v ≠ u := fun hvu => ht (congrArg some hvu)
      simp [queueOf, hv]

theorem queueOf_push {u : ι} {f : Functor} (h : s.inflight u = some f) :
    queueOf { s with
      loop := (s.loop.push (some u, f)).wakeup
      inflight := Function.update s.inflight u none } = s.queueOf := by
  funext t
  by_cases ht : t = some u
  · subst ht
    simp [queueOf, h]
  · cases t with
    | none => simp [queueOf]
    | some v =>
      have hv : v ≠ u := fun hvu => ht (congrArg some hvu)
      simp [queueOf, hv, Ne.symm hv]

theorem queueOf_next (hc : s.loop.Coherent) {t : Option ι} {f : Functor}
    {l : EventLoop (Option ι × Functor)} (h : s.loop.nextFunctor = some ((t, f), l)) :
    s.queueOf = Function.update (queueOf { s with loop := l }) t
      (f :: queueOf { s with loop := l } t) := by
  obtain ⟨-, hf, -, hp, -⟩ := hc.nextFunctor h
  have htodo : s.loop.todo = (t, f) :: l.todo := by simp [todo, hf, hp]
  funext u
  by_cases hu : u = t
  · subst hu
    simp [queueOf, htodo]
  · simp [queueOf, htodo, hu, Ne.symm hu]

theorem Inv.inflight (h : s.Inv) {u : ι} (hu : s.inflight u = none) {f : Functor}
    (hf : Harmless f) : Inv { s with inflight := Function.update s.inflight u (some f) } := by
  refine ⟨h.holds.setLoop h.holds.coherent _, ?_⟩
  rw [queueOf_inflight hu]
  refine h.queues.extend fun t => ?_
  by_cases ht : t = some u
  · subst ht
    exact ⟨[f], by simp, by simpa using hf, by simp⟩
  · exact ⟨[], by simp [Function.update_of_ne ht], by simp, by simp⟩

theorem runInLoop_reading {t : Option ι} {w : WriteResult} {f : Functor} (h : s.Inv)
    (ht : s.canCall t = true) (hf : f = .startReadInLoop ∨ f = .stopReadInLoop) :
    Yields ([Effect.runInLoop f].foldlM (effectOf t w) s) Inv := by
  rw [List.foldlM_cons]
  refine yields_bind (P := Inv) ?_ fun s' hs' => yields_pure.mpr hs'
  cases t with
  | none =>
    rcases hf with rfl | rfl
    · exact yields_pure.mpr h.startReadInLoop
    · exact yields_pure.mpr h.stopReadInLoop
  | some u =>
    refine yields_pure.mpr (h.inflight (Option.isNone_iff_eq_none.mp ht) ?_)
    rcases hf with rfl | rfl
    · exact ⟨rfl, by decide, by decide⟩
    · exact ⟨rfl, by decide, by decide⟩

theorem Local.connected_iff (h : s.Local) : s.conn.state = .kconnected ↔ s.shutBy = none := by
  rcases h.phase with hp | hp
  · simp [hp.1, hp.2.1]
  · simp [hp.1, hp.2]

theorem foldlM_effectOf_output {t : Option ι} {w : WriteResult}
    {fx : List Effect} (h : ∀ e ∈ fx, Effect.IsOutput e) :
    fx.foldlM (effectOf t w) s = .ok (fx.foldl emit s) := by
  induction fx generalizing s with
  | nil => rfl
  | cons e fx ih =>
    have he : effectOf t w s e = .ok (s.emit e) := by
      match e, h e List.mem_cons_self with
      | .write _, _ => rfl
      | .queueInLoop _, _ => rfl
    rw [List.foldlM_cons, he]
    exact ih fun e he => h e (List.mem_cons_of_mem _ he)

theorem send_loop_inv {message : List Byte} {w : WriteResult} (h : s.Inv)
    (hk : s.Kernel message.length w) : Yields (s.send none message w) Inv := by
  by_cases hc : s.conn.state = .kconnected
  · have hn : s.shutBy = none := h.holds.connected_iff.mp hc
    have hl : (s.logSent none message).Local :=
      ⟨h.holds.coherent, h.holds.output, h.holds.idle, h.holds.phase, h.holds.stream,
        h.holds.graceful_of_none hn rfl⟩
    have hd : Disciplined s.queueOf (s.logSent none message).sent
        (s.executed ++ [(none, message)]) s.shutBy := by
      have hq := h.queues
      refine ⟨fun t => ?_, hq.own, hq.noClose, hq.ordered, hq.shutter⟩
      rw [logSent, if_pos hn, bytesOf_append, bytesOf_append, ← hq.queued t]
      cases t with
      | none => simp [hq.own_payload]
      | some u => simp [bytesOf_other (show (none : Option ι) ≠ some u by simp)]
    have hx := execute_sendInLoop (s := s.logSent none message) hl hd hk
    have hs : s.conn.state ≠ .kdisconnected := by rw [hc]; decide
    have hy : Yields (s.conn.sendInLoop message w) (SendPost s.conn _ message w) :=
      sendInLoop_yields h.holds.output.represents hs
    obtain ⟨r, hr, hpost⟩ := hy
    have hsend : s.send none message w = (s.logSent none message).execute none w
        (.sendInLoop message) := by
      have hr' : (s.logSent none message).conn.sendInLoop message w = .ok r := hr
      have hconn : (s.logSent none message).conn.state = .kconnected := hc
      simp only [send, TcpConnection.send, hc, Option.isNone_none, if_true, hr, execute, hr',
        hconn, and_self]
      exact foldlM_effectOf_output hpost.output
    rw [hsend]
    exact hx
  · have hn : s.shutBy ≠ none := fun hn => hc (h.holds.connected_iff.mpr hn)
    have hsend : s.send none message w = .ok s := by
      simp only [send, TcpConnection.send, hc, if_false, logSent, hn, and_false]
      rfl
    rw [hsend]
    exact yields_ok.mpr h

theorem send_foreign_inv {u : ι} {message : List Byte} {w : WriteResult} (h : s.Inv)
    (hu : s.inflight u = none) : Yields (s.send (some u) message w) Inv := by
  by_cases hc : s.conn.state = .kconnected
  · have hn : s.shutBy = none := h.holds.connected_iff.mp hc
    have hsend : s.send (some u) message w = .ok { s with
        inflight := Function.update s.inflight u (some (.sendInLoop message))
        sent := s.sent ++ [(some u, message)] } := by
      simp only [send, TcpConnection.send, hc, Option.isNone_some, if_true, logSent, hn]
      rfl
    have hd : Disciplined (Function.update s.queueOf (some u) (s.queueOf (some u) ++
        [.sendInLoop message])) (s.sent ++ [(some u, message)]) s.executed s.shutBy := by
      refine h.queues.enqueue u _ (fun t => ?_) (by simp) hn (by simp)
      rw [bytesOf_append]
      by_cases ht : t = some u
      · subst ht; simp [payload]
      · simp [bytesOf_other (Ne.symm ht), ht]
    rw [← queueOf_inflight hu] at hd
    rw [hsend]
    exact yields_ok.mpr ⟨⟨h.holds.coherent, h.holds.output, h.holds.idle, h.holds.phase,
      h.holds.stream, h.holds.graceful_of_none hn rfl⟩, hd⟩
  · have hn : s.shutBy ≠ none := fun hn => hc (h.holds.connected_iff.mpr hn)
    have hsend : s.send (some u) message w = .ok s := by
      simp only [send, TcpConnection.send, hc, if_false, logSent, hn, and_false]
      rfl
    rw [hsend]
    exact yields_ok.mpr h

theorem shutdown_inv {t : Option ι} (h : s.Inv) (ht : s.canCall t = true) :
    Yields (s.shutdown t) Inv := by
  by_cases hc : s.conn.state = .kconnected
  · have hn : s.shutBy = none := h.holds.connected_iff.mp hc
    have hl : Local { s with conn := s.conn.setState .kdisconnecting, shutBy := some t } :=
      ⟨h.holds.coherent, h.holds.output, h.holds.idle, .inr ⟨rfl, by simp⟩, h.holds.stream,
        h.holds.graceful_of_none hn rfl⟩
    have hno := (hn ▸ h.queues).not_shutting
    have hd : Disciplined s.queueOf s.sent s.executed (some t) :=
      ⟨h.queues.queued, h.queues.own, h.queues.noClose, h.queues.ordered,
        fun u hu => absurd hu (hno u)⟩
    simp only [shutdown, TcpConnection.shutdown, hc, if_true, List.foldlM_cons, List.foldlM_nil]
    refine yields_bind (P := Inv) ?_ fun s' hs' => yields_pure.mpr hs'
    cases t with
    | none =>
      refine yields_pure.mpr (shutdownInLoop_inv ⟨hl, hd⟩ rfl ?_)
      have hq := hd.queued none
      rwa [hd.own_payload, List.append_nil] at hq
    | some u =>
      refine yields_pure.mpr ⟨⟨hl.coherent, hl.output, hl.idle, hl.phase, hl.stream,
        hl.graceful⟩, ?_⟩
      have hu : s.inflight u = none := Option.isNone_iff_eq_none.mp ht
      have hd' : Disciplined (Function.update s.queueOf (some u) (s.queueOf (some u) ++
          [.shutdownInLoop])) s.sent s.executed (some (some u)) :=
        h.queues.enqueue u .shutdownInLoop (by simp [payload]) (by simp) hn (fun _ => rfl)
      rw [← queueOf_inflight hu] at hd'
      exact hd'
  · simp only [shutdown, TcpConnection.shutdown, hc, if_false, List.foldlM_nil]
    exact yields_pure.mpr h

theorem step_inv (s : ConnSystem ι) (x : ConnLabel ι) (h : s.Inv) (hx : s.DrainsLast x) :
    Yields (s.step x) Inv := by
  cases x with
  | act a =>
    refine yields_bind (advance_moved h.holds.coherent a) fun l hl => yields_pure.mpr ?_
    refine ⟨h.holds.setLoop (hl.coherent h.holds.coherent) _, ?_⟩
    have hq : queueOf { s with loop := l } = s.queueOf := by
      funext t
      simp only [queueOf, hl.todo_eq h.holds.coherent]
    rw [hq]
    exact h.queues
  | send t message w =>
    simp only [step]
    split
    · next ht =>
      cases t with
      | none => exact send_loop_inv h hx
      | some u => exact send_foreign_inv h (Option.isNone_iff_eq_none.mp ht)
    · exact yields_pure.mpr h
  | shutdown t =>
    simp only [step]
    split
    · next ht => exact shutdown_inv h ht
    · exact yields_pure.mpr h
  | startRead t =>
    simp only [step]
    split
    · next ht => exact runInLoop_reading h ht (.inl rfl)
    · exact yields_pure.mpr h
  | stopRead t =>
    simp only [step]
    split
    · next ht => exact runInLoop_reading h ht (.inr rfl)
    · exact yields_pure.mpr h
  | queue u =>
    simp only [step]
    split
    · next f hf =>
      refine yields_pure.mpr ⟨h.holds.setLoop (h.holds.coherent.push _).wakeup _, ?_⟩
      rw [queueOf_push hf]
      exact h.queues
    · exact yields_pure.mpr h
  | runFunctor w =>
    simp only [step]
    split
    · next t f l hn =>
      have hc := (h.holds.coherent.nextFunctor hn).2.2.2.2.2
      refine execute_inv (h.holds.setLoop hc _) h.queues
        (queueOf_next h.holds.coherent hn) fun message hm => ?_
      subst hm
      exact hx t message l hn
    · exact yields_pure.mpr h
  | handleWrite w =>
    simp only [step]
    split
    · next a ha =>
      exact handleWrite_inv h hx.1 fun hi hcount hst hf =>
        hx.2 ⟨⟨a, ha⟩, hi, hcount, hst⟩ hf
    · exact yields_pure.mpr h

theorem start_inv {c : TcpConnection} (hs : c.state = .kconnected)
    (ho : c.outputBuffer.Represents []) : (start c : ConnSystem ι).Inv := by
  refine ⟨⟨new_coherent, ho.1, fun _ => ho.2, .inl ⟨hs, rfl, rfl⟩, fun _ => ?_, ?_⟩, ?_⟩
  · simpa [start] using ho.2
  · intro snap hsnap
    cases hsnap
  · have hq : (start c : ConnSystem ι).queueOf = fun _ => [] := by
      funext t
      cases t <;> rfl
    rw [hq]
    constructor <;> simp [start, bytesOf]

/--
In a run in which `HandleWrite` never empties the output buffer of a connection being shut down
while bytes of the thread that shut it down are queued, the shutdown is graceful.
-/
theorem shutdown_is_graceful (c : TcpConnection) (hs : c.state = .kconnected)
    (ho : c.outputBuffer.Represents []) (labels : List (ConnLabel ι))
    (h : Along step DrainsLast (start c) labels) :
    Yields (run step (start c) labels) Graceful :=
  (run_invariant step_inv (start_inv hs ho) h).mono fun _ h => h.holds.graceful

theorem shutdown_is_graceful_partial_write :
    Yields (run step (start idleConnection : ConnSystem Unit)
      [.send none [1, 2] (.wrote 1), .shutdown none, .act .loop, .act .testQuit,
        .act (.pollReturn false), .handleWrite (.wrote 1)]) Graceful := by
  refine shutdown_is_graceful idleConnection rfl ⟨⟨by decide, by decide, by decide⟩, rfl⟩ _ ?_
  refine ⟨⟨show (1 : ℕ) ≤ 2 by decide, fun _ => rfl⟩, fun s hs => ?_⟩
  cases hs
  refine ⟨trivial, fun s hs => ?_⟩
  cases hs
  refine ⟨trivial, fun s hs => ?_⟩
  cases hs
  refine ⟨trivial, fun s hs => ?_⟩
  cases hs
  refine ⟨trivial, fun s hs => ?_⟩
  cases hs
  refine ⟨⟨⟨show (1 : ℕ) ≤ 1 by decide, fun _ => rfl⟩, fun _ _ t ht => ?_⟩, fun _ _ => trivial⟩
  cases ht
  rfl

/--
A thread sends twice and shuts down. The first message is written in part; `HandleWrite` writes
the rest of it, finds `kdisconnecting` and shuts down before the second message is sent.
-/
theorem shutdown_overtakes_queued_message :
    ¬ Yields (run step (start idleConnection : ConnSystem Unit)
      [.send (some ()) [1, 2] (.wrote 0), .queue (), .act .loop, .act .testQuit,
        .act (.pollReturn true), .act .handleRead, .act .handled, .act .swap,
        .runFunctor (.wrote 1), .act .ran, .act .cleared, .send (some ()) [3] (.wrote 0),
        .queue (), .shutdown (some ()), .queue (), .act .testQuit, .act (.pollReturn true),
        .handleWrite (.wrote 1)]) Graceful := by
  rintro ⟨s, hs, hg⟩
  cases hs
  obtain ⟨-, -, t, ht, hb⟩ := hg _ rfl
  cases ht
  exact absurd hb (by decide)

end ConnSystem

end Dwater
