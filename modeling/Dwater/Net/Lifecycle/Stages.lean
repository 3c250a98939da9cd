import Dwater.Net.OutputStream
import Dwater.Net.TcpServer

/-! # The life of a connection

Seen from one connection, a run of the server walks through a few stages, each given by
what the queues and stacks hold for it. The stages follow one another as long as the
server is destroyed only while its connections are connecting or connected, and none of
them is closed between the start of `~TcpServer` and its own `ConnectionDestroyed`.
-/

set_option autoImplicit false
namespace Dwater

open Fallible TcpConnection

variable {ι : Type}

def Frame.conn : Frame → Option ℕ
  | connectionCallback c _ | closeCallback c | removeChannel c => some c
  | destroying _ => none

def Frame.rest : Frame → List ℕ
  | destroying rest => rest
  | _ => []

theorem Frame.rest_of_conn {f : Frame} (h : f.conn ≠ none) : f.rest = [] := by
  cases f with
  | destroying rest => exact absurd rfl h
  | _ => rfl

def Frame.isCallback : Frame → Bool
  | connectionCallback _ _ => true
  | _ => false

def Task.conn : Task → ℕ
  | connectionEstablished c | connectionDestroyed c | removeConnectionInLoop c | functor c _ => c

def Task.isLife : Task → Bool
  | connectionEstablished _ | connectionDestroyed _ => true
  | _ => false

def Task.isRemoval : Task → Bool
  | removeConnectionInLoop _ => true
  | _ => false

/-- Where a connection is in its life. A Boolean says that `~TcpServer` has already queued
`ConnectionDestroyed`. -/
inductive Stage

  /-- `ConnectionEstablished` is queued. -/
  | waiting (doomed : Bool)

  /-- `ConnectionEstablished` is about to call back. -/
  | opening (doomed : Bool)

  | opened (doomed : Bool)

  /-- `HandleClose` is about to call back. -/
  | closing

  /-- `HandleClose` is about to call the server. -/
  | leaving

  /-- `RemoveConenctionInLoop` is queued. -/
  | removing

  /-- `ConnectionDestroyed` is queued after a close. -/
  | condemned

  /-- `ConnectionDestroyed` is about to call back. -/
  | ending

  /-- `ConnectionDestroyed` is about to remove the channel. -/
  | parting

  | gone
  deriving DecidableEq, Repr

def wholeLife : List LifeEvent := [.established, .up, .down, .destroyed]

namespace Stage

def log : Stage → List LifeEvent
  | waiting _ => []
  | opening _ => [.established]
  | opened _ | closing | ending => [.established, .up]
  | leaving | removing | condemned | parting => [.established, .up, .down]
  | gone => wholeLife

def frames (c : ℕ) : Stage → List Frame
  | opening _ => [.connectionCallback c true]
  | closing => [.connectionCallback c false, .closeCallback c]
  | leaving => [.closeCallback c]
  | ending => [.connectionCallback c false, .removeChannel c]
  | parting => [.removeChannel c]
  | _ => []

def tasks (c : ℕ) : Stage → List Task
  | waiting false => [.connectionEstablished c]
  | waiting true => [.connectionEstablished c, .connectionDestroyed c]
  | opening true | opened true | condemned => [.connectionDestroyed c]
  | _ => []

def removals (c : ℕ) : Stage → List Task
  | removing => [.removeConnectionInLoop c]
  | _ => []

def held : Stage → ℕ
  | waiting false | opening false | opened false | closing | leaving | removing => 1
  | _ => 0

/-- What the connection is like, given whether the server is alive and owns its loop. -/
def Fits (alive own : Prop) (conn : TcpConnection) : Stage → Prop
  | waiting doomed => conn.state = .kconnecting ∧ conn.channel.isReading = false ∧
      (doomed = true → ¬ alive) ∧ ¬ own
  | opening doomed | opened doomed =>
      (conn.state = .kconnected ∨ (alive ∧ conn.state = .kdisconnecting)) ∧
        (doomed = true → ¬ alive)
  | closing | leaving | removing =>
      alive ∧ conn.state = .kdisconnected ∧ conn.channel.isNoneEvent = true
  | condemned | ending | parting | gone =>
      conn.state = .kdisconnected ∧ conn.channel.isNoneEvent = true

end Stage

namespace TcpServer

def framesOf (c : ℕ) (fs : List Frame) : List Frame := fs.filter fun f => f.conn = some c

def tasksOf (c : ℕ) (ts : List Task) : List Task := ts.filter fun t => t.isLife ∧ t.conn = c

def removalsOf (c : ℕ) (ts : List Task) : List Task := ts.filter fun t => t.isRemoval ∧ t.conn = c

/-- The connections that the server, or its destructor, has not let go. -/
def held (s : TcpServer ι) : List ℕ :=
  if s.phase = .alive then s.connections else (s.stack s.base).flatMap Frame.rest

def LoopOf (s : TcpServer ι) (c : ℕ) (i : ι) : Prop := ∃ e, s.entries c = some e ∧ e.loop = i

def Callable (f : Functor) : Prop := f ≠ .startReadInLoop ∧ f ≠ .stopReadInLoop

def PlacedFrame (s : TcpServer ι) (i : ι) : Frame → Prop
  | .connectionCallback c _ | .closeCallback c | .removeChannel c => s.LoopOf c i
  | .destroying _ => i = s.base

def PlacedTask (s : TcpServer ι) (i : ι) : Task → Prop
  | .connectionEstablished c | .connectionDestroyed c => s.LoopOf c i
  | .removeConnectionInLoop c => i = s.base ∧ ∃ j, s.LoopOf c j
  | .functor c f => s.LoopOf c i ∧ Callable f

/-- Everything is on the thread it belongs to, and only the top of a stack is a callback. -/
structure Shape (s : TcpServer ι) : Prop where
  frames : ∀ i, ∀ f ∈ s.stack i, s.PlacedFrame i f
  tasks : ∀ i, ∀ t ∈ s.queue i, s.PlacedTask i t
  shallow : ∀ i, ∀ f ∈ (s.stack i).tail, f.isCallback = false
  undoomed : s.phase = .alive → ∀ f ∈ s.stack s.base, f.conn ≠ none
  unborn : ∀ c, s.nextConnid ≤ c → s.entries c = none

/-- The functor of a `ForceClose` is queued. -/
def Forced (s : TcpServer ι) (c : ℕ) (i : ι) : Prop := .functor c .forceCloseInLoop ∈ s.queue i

def Leaving (conn : TcpConnection) : Prop :=
  conn.state = .kdisconnecting ∨ conn.state = .kdisconnected

structure Matches (s : TcpServer ι) (c : ℕ) (e : Entry ι) (st : Stage) : Prop where
  log_eq : e.log = st.log
  frames_eq : framesOf c (s.stack e.loop) = st.frames c
  tasks_eq : tasksOf c (s.queue e.loop) = st.tasks c
  removals_eq : removalsOf c (s.queue s.base) = st.removals c
  held_eq : s.held.count c = st.held
  forced : s.Forced c e.loop → Leaving e.conn
  fits : st.Fits (s.phase = .alive) (e.loop = s.base) e.conn
  input : e.conn.inputBuffer.Inv
  output : e.conn.outputBuffer.Inv

structure Inv (s : TcpServer ι) : Prop where
  shape : s.Shape
  unheld : ∀ c, s.entries c = none → s.held.count c = 0
  life : ∀ c e, s.entries c = some e → ∃ st, s.Matches c e st

/-- To every connection but `c` the two states look the same. -/
structure Elsewhere (c : ℕ) (s s' : TcpServer ι) : Prop where
  entries_eq : ∀ d, d ≠ c → s'.entries d = s.entries d
  frames_eq : ∀ d, d ≠ c → ∀ i, framesOf d (s'.stack i) = framesOf d (s.stack i)
  tasks_eq : ∀ d, d ≠ c → ∀ i, tasksOf d (s'.queue i) = tasksOf d (s.queue i)
  removals_eq : ∀ d, d ≠ c → ∀ i, removalsOf d (s'.queue i) = removalsOf d (s.queue i)
  held_eq : ∀ d, d ≠ c → s'.held.count d = s.held.count d
  forced : ∀ d, d ≠ c → ∀ i, s'.Forced d i → s.Forced d i
  base_eq : s'.base = s.base
  phase_eq : s'.phase = s.phase

section Views

variable {c d : ℕ} {fs gs : List Frame} {ts us : List Task}

@[simp] theorem framesOf_nil : framesOf c [] = [] := rfl

@[simp] theorem framesOf_append : framesOf c (fs ++ gs) = framesOf c fs ++ framesOf c gs :=
  List.filter_append ..

theorem framesOf_cons {f : Frame} :
    framesOf c (f :: fs) = if f.conn = some c then f :: framesOf c fs else framesOf c fs := by
  simp [framesOf, List.filter_cons]

@[simp] theorem tasksOf_nil : tasksOf c [] = [] := rfl

@[simp] theorem tasksOf_append : tasksOf c (ts ++ us) = tasksOf c ts ++ tasksOf c us :=
  List.filter_append ..

theorem tasksOf_cons {t : Task} :
    tasksOf c (t :: ts) = if t.isLife ∧ t.conn = c then t :: tasksOf c ts else tasksOf c ts := by
  simp [tasksOf, List.filter_cons]

@[simp] theorem removalsOf_nil : removalsOf c [] = [] := rfl

@[simp] theorem removalsOf_append :
    removalsOf c (ts ++ us) = removalsOf c ts ++ removalsOf c us :=
  List.filter_append ..

theorem removalsOf_cons {t : Task} :
    removalsOf c (t :: ts) =
      if t.isRemoval ∧ t.conn = c then t :: removalsOf c ts else removalsOf c ts := by
  simp [removalsOf, List.filter_cons]

theorem tasksOf_other (h : ∀ t ∈ ts, t.conn = c) (hd : d ≠ c) : tasksOf d ts = [] := by
  rw [tasksOf, List.filter_eq_nil_iff]
  intro t ht
  simp [h t ht, Ne.symm hd]

theorem removalsOf_other (h : ∀ t ∈ ts, t.conn = c) (hd : d ≠ c) : removalsOf d ts = [] := by
  rw [removalsOf, List.filter_eq_nil_iff]
  intro t ht
  simp [h t ht, Ne.symm hd]

theorem framesOf_other (h : ∀ f ∈ fs, f.conn = some c) (hd : d ≠ c) : framesOf d fs = [] := by
  rw [framesOf, List.filter_eq_nil_iff]
  intro f hf
  simp [h f hf, Ne.symm hd]

theorem framesOf_self (h : ∀ f ∈ fs, f.conn = some c) : framesOf c fs = fs := by
  rw [framesOf, List.filter_eq_self]
  intro f hf
  simp [h f hf]

end Views

section Primitives

variable {s s' s'' : TcpServer ι} {c : ℕ} {e e' : Entry ι} {st st' : Stage} {i : ι}

theorem Elsewhere.refl (c : ℕ) (s : TcpServer ι) : Elsewhere c s s :=
  ⟨fun _ _ => rfl, fun _ _ _ => rfl, fun _ _ _ => rfl, fun _ _ _ => rfl, fun _ _ => rfl,
    fun _ _ _ hf => hf, rfl, rfl⟩

theorem Elsewhere.trans (h : Elsewhere c s s') (h' : Elsewhere c s' s'') : Elsewhere c s s'' := by
  constructor
  · exact fun d hd => (h'.entries_eq d hd).trans (h.entries_eq d hd)
  · exact fun d hd i => (h'.frames_eq d hd i).trans (h.frames_eq d hd i)
  · exact fun d hd i => (h'.tasks_eq d hd i).trans (h.tasks_eq d hd i)
  · exact fun d hd i => (h'.removals_eq d hd i).trans (h.removals_eq d hd i)
  · exact fun d hd => (h'.held_eq d hd).trans (h.held_eq d hd)
  · exact fun d hd i hf => h.forced d hd i (h'.forced d hd i hf)
  · exact h'.base_eq.trans h.base_eq
  · exact h'.phase_eq.trans h.phase_eq

theorem Matches.elsewhere {d : ℕ} (h : s.Matches d e st) (he : Elsewhere c s s') (hd : d ≠ c) :
    s'.Matches d e st := by
  constructor
  · exact h.log_eq
  · rw [he.frames_eq d hd, h.frames_eq]
  · rw [he.tasks_eq d hd, h.tasks_eq]
  · rw [he.removals_eq d hd, he.base_eq, h.removals_eq]
  · rw [he.held_eq d hd, h.held_eq]
  · exact fun hf => h.forced (he.forced d hd _ hf)
  · rw [he.phase_eq, he.base_eq]
    exact h.fits
  · exact h.input
  · exact h.output

/-- A step that only connection `c` notices keeps the invariant if it takes `c` to a stage. -/
theorem Inv.of_elsewhere (h : s.Inv) (hs : s'.Shape) (he : Elsewhere c s s')
    (hc : s'.entries c = some e') (hm : s'.Matches c e' st') : s'.Inv := by
  refine ⟨hs, fun d hd => ?_, fun d e hd => ?_⟩
  · have hne : d ≠ c := by
      rintro rfl
      rw [hc] at hd
      cases hd
    rw [he.entries_eq d hne] at hd
    rw [he.held_eq d hne]
    exact h.unheld d hd
  · by_cases hne : d = c
    · subst hne
      rw [hc] at hd
      cases hd
      exact ⟨st', hm⟩
    · rw [he.entries_eq d hne] at hd
      obtain ⟨st, hst⟩ := h.life d e hd
      exact ⟨st, hst.elsewhere he hne⟩

theorem PlacedFrame.mono (hl : ∀ d j, s.LoopOf d j → s'.LoopOf d j) (hb : s'.base = s.base)
    {f : Frame} (h : s.PlacedFrame i f) : s'.PlacedFrame i f := by
  cases f with
  | destroying rest => exact h.trans hb.symm
  | _ => exact hl _ _ h

theorem PlacedTask.mono (hl : ∀ d j, s.LoopOf d j → s'.LoopOf d j) (hb : s'.base = s.base)
    {t : Task} (h : s.PlacedTask i t) : s'.PlacedTask i t := by
  cases t with
  | removeConnectionInLoop d =>
    obtain ⟨hi, j, hj⟩ := h
    exact ⟨hi.trans hb.symm, j, hl _ _ hj⟩
  | functor d f => exact ⟨hl _ _ h.1, h.2⟩
  | _ => exact hl _ _ h

theorem elsewhere_setEntry : Elsewhere c s (s.setEntry c e) := by
  constructor
  · exact fun d hd => Function.update_of_ne hd _ _
  · exact fun _ _ _ => rfl
  · exact fun _ _ _ => rfl
  · exact fun _ _ _ => rfl
  · exact fun _ _ => rfl
  · exact fun _ _ _ hf => hf
  · rfl
  · rfl

theorem Shape.setEntry (h : s.Shape) (hc : s.LoopOf c e.loop) : (s.setEntry c e).Shape := by
  have hl : ∀ d j, s.LoopOf d j → (s.setEntry c e).LoopOf d j := by
    rintro d j ⟨e₀, he₀, hj⟩
    by_cases hd : d = c
    · subst hd
      obtain ⟨e₁, he₁, hj₁⟩ := hc
      rw [he₀] at he₁
      cases he₁
      exact ⟨e, by simp [TcpServer.setEntry], hj₁.symm.trans hj⟩
    · exact ⟨e₀, by simpa [TcpServer.setEntry, hd] using he₀, hj⟩
  constructor
  · exact fun j f hf => (h.frames j f hf).mono hl rfl
  · exact fun j t ht => (h.tasks j t ht).mono hl rfl
  · exact h.shallow
  · exact h.undoomed
  · intro d hd
    have hne : d ≠ c := by
      rintro rfl
      obtain ⟨e₁, he₁, -⟩ := hc
      rw [h.unborn d hd] at he₁
      cases he₁
    simpa [TcpServer.setEntry, hne] using h.unborn d hd

variable [DecidableEq ι]

theorem elsewhere_enqueue {ts : List Task} (h : ∀ t ∈ ts, t.conn = c) :
    Elsewhere c s (s.enqueue i ts) := by
  constructor
  · exact fun _ _ => rfl
  · exact fun _ _ _ => rfl
  · intro d hd j
    by_cases hj : j = i
    · subst hj
      simp [enqueue, tasksOf_other h hd]
    · simp [enqueue, hj]
  · intro d hd j
    by_cases hj : j = i
    · subst hj
      simp [enqueue, removalsOf_other h hd]
    · simp [enqueue, hj]
  · exact fun _ _ => rfl
  · intro d hd j hf
    by_cases hj : j = i
    · subst hj
      simp only [Forced, enqueue, Function.update_self, List.mem_append] at hf
      exact hf.resolve_right fun hmem => hd (h _ hmem)
    · simpa [Forced, enqueue, hj] using hf
  · rfl
  · rfl

theorem elsewhere_dequeue {t : Task} {ts : List Task} (h : s.queue i = t :: ts) :
    Elsewhere t.conn s { s with queue := Function.update s.queue i ts } := by
  constructor
  · exact fun _ _ => rfl
  · exact fun _ _ _ => rfl
  · intro d hd j
    by_cases hj : j = i
    · subst hj
      simp [h, tasksOf_cons, Ne.symm hd]
    · simp [hj]
  · intro d hd j
    by_cases hj : j = i
    · subst hj
      simp [h, removalsOf_cons, Ne.symm hd]
    · simp [hj]
  · exact fun _ _ => rfl
  · intro d hd j hf
    by_cases hj : j = i
    · subst hj
      simp only [Forced, Function.update_self] at hf
      rw [Forced, h]
      exact List.mem_cons_of_mem _ hf
    · simpa [Forced, hj] using hf
  · rfl
  · rfl

theorem elsewhere_setStack {fs : List Frame}
    (hf : ∀ d, d ≠ c → framesOf d fs = framesOf d (s.stack i))
    (hr : ∀ d, d ≠ c → i = s.base → s.phase ≠ .alive →
      (fs.flatMap Frame.rest).count d = ((s.stack i).flatMap Frame.rest).count d) :
    Elsewhere c s (s.setStack i fs) := by
  constructor
  · exact fun _ _ => rfl
  · intro d hd j
    by_cases hj : j = i
    · subst hj
      simpa [setStack] using hf d hd
    · simp [setStack, hj]
  · exact fun _ _ _ => rfl
  · exact fun _ _ _ => rfl
  · intro d hd
    unfold held
    by_cases hp : s.phase = .alive
    · simp [setStack, hp]
    · by_cases hb : s.base = i
      · subst hb
        simpa [setStack, hp] using hr d hd rfl hp
      · simp [setStack, hp, hb]
  · exact fun _ _ _ hf => hf
  · rfl
  · rfl

theorem Shape.enqueue {ts : List Task} (h : s.Shape) (ht : ∀ t ∈ ts, s.PlacedTask i t) :
    (s.enqueue i ts).Shape := by
  refine ⟨h.frames, fun j t hmem => ?_, h.shallow, h.undoomed, h.unborn⟩
  by_cases hj : j = i
  · subst hj
    simp only [TcpServer.enqueue, Function.update_self, List.mem_append] at hmem
    rcases hmem with hmem | hmem
    · exact (h.tasks j t hmem).mono (fun _ _ h => h) rfl
    · exact (ht t hmem).mono (fun _ _ h => h) rfl
  · simp only [TcpServer.enqueue, Function.update_of_ne hj] at hmem
    exact (h.tasks j t hmem).mono (fun _ _ h => h) rfl

theorem Shape.dequeue {t : Task} {ts : List Task} (h : s.Shape) (hq : s.queue i = t :: ts) :
    Shape { s with queue := Function.update s.queue i ts } := by
  refine ⟨h.frames, fun j u hmem => ?_, h.shallow, h.undoomed, h.unborn⟩
  by_cases hj : j = i
  · subst hj
    simp only [Function.update_self] at hmem
    exact (h.tasks j u (hq ▸ List.mem_cons_of_mem _ hmem)).mono (fun _ _ h => h) rfl
  · simp only [Function.update_of_ne hj] at hmem
    exact (h.tasks j u hmem).mono (fun _ _ h => h) rfl

theorem Shape.setStack {fs : List Frame} (h : s.Shape) (hf : ∀ f ∈ fs, s.PlacedFrame i f)
    (ht : ∀ f ∈ fs.tail, f.isCallback = false)
    (hr : s.phase = .alive → i = s.base → ∀ f ∈ fs, f.conn ≠ none) :
    (s.setStack i fs).Shape := by
  constructor
  · intro j f hmem
    by_cases hj : j = i
    · subst hj
      simp only [TcpServer.setStack, Function.update_self] at hmem
      exact (hf f hmem).mono (fun _ _ h => h) rfl
    · simp only [TcpServer.setStack, Function.update_of_ne hj] at hmem
      exact (h.frames j f hmem).mono (fun _ _ h => h) rfl
  · exact fun j t ht => (h.tasks j t ht).mono (fun _ _ h => h) rfl
  · intro j f hmem
    by_cases hj : j = i
    · subst hj
      simp only [TcpServer.setStack, Function.update_self] at hmem
      exact ht f hmem
    · simp only [TcpServer.setStack, Function.update_of_ne hj] at hmem
      exact h.shallow j f hmem
  · intro hp
    by_cases hb : s.base = i
    · subst hb
      simpa [TcpServer.setStack] using hr hp rfl
    · simpa [TcpServer.setStack, hb] using h.undoomed hp
  · exact h.unborn

end Primitives

end TcpServer

end Dwater
