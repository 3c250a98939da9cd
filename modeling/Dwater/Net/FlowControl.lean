import Dwater.Net.Backlog

/-! # Flow control

The high-water-mark callback tells a sender that the backlog has reached the mark, and the
write-complete callback that it is gone. The crossing is tested before the rest of a
message is stored, and completion is signalled after a direct write and after a write of
the backlog. In every run the two callbacks are queued at these crossings and nowhere else.
-/

set_option autoImplicit false
namespace Dwater

open Fallible Buffer

/-- The arguments with which the high-water-mark callback is queued. -/
def highWaterMarks (fx : List Effect) : List ℕ :=
  fx.filterMap fun
    | .queueInLoop (.highWaterMarkCallback len) => some len
    | _ => none

def completions (fx : List Effect) : ℕ := fx.count (.queueInLoop .writeCompleteCallback)

@[simp] theorem highWaterMarks_append (fx gx : List Effect) :
    highWaterMarks (fx ++ gx) = highWaterMarks fx ++ highWaterMarks gx :=
  List.filterMap_append

@[simp] theorem highWaterMarks_nil : highWaterMarks [] = [] := rfl

@[simp] theorem highWaterMarks_cons_write (data : List Byte) (fx : List Effect) :
    highWaterMarks (.write data :: fx) = highWaterMarks fx := rfl

@[simp] theorem completions_append (fx gx : List Effect) :
    completions (fx ++ gx) = completions fx + completions gx :=
  List.count_append

@[simp] theorem completions_nil : completions [] = 0 := rfl

@[simp] theorem completions_cons_write (data : List Byte) (fx : List Effect) :
    completions (.write data :: fx) = completions fx :=
  List.count_cons_of_ne (by simp)

namespace TcpConnection

def backlog (c : TcpConnection) : ℕ := c.outputBuffer.readableBytes

def perform (c : TcpConnection) : OutputStep → Except Fault (TcpConnection × List Effect)
  | .sendInLoop message w => c.sendInLoop message w
  | .handleWrite w => c.handleWrite w
  | .setState state => return (c.setState state, [])

/-- The `socket::Write` of a step: the bytes it offers and what the kernel answers. -/
def socketWrite (c : TcpConnection) : OutputStep → Option (List Byte × WriteResult)
  | .sendInLoop message w => if c.writesDirectly then some (message, w) else none
  | .handleWrite w => if c.channel.isWriting then some (c.outputBuffer.content, w) else none
  | .setState _ => none

/-- The step writes to the socket, and the kernel accepts all it is offered. -/
def acceptsAll (c : TcpConnection) (x : OutputStep) : Bool :=
  match c.socketWrite x with
  | some (data, .wrote n) => n = data.length
  | _ => false

/-- A live connection with both callbacks and a mark. -/
structure Flowing (mark : ℕ) (c : TcpConnection) : Prop where
  watched : c.Watched
  live : c.state ≠ .kdisconnected
  writeComplete : c.writeCompleteCallback = true
  highWater : c.highWaterMarkCallback = true
  mark_eq : c.highWaterMark = mark

/-- A write takes at most what it is offered, and nobody closes the connection. -/
def Ordinary (c : TcpConnection) (x : OutputStep) : Prop :=
  (∀ data w, c.socketWrite x = some (data, w) → w.Within data.length) ∧
    x ≠ .setState .kdisconnected

/-- The two callbacks are queued as the backlog demands. -/
structure ExactCallbacks (mark : ℕ) (c : TcpConnection) (x : OutputStep)
    (r : TcpConnection × List Effect) : Prop where

  /-- when it passes from below the mark to the mark or more, with its new length -/
  highWater : highWaterMarks r.2 =
    if c.backlog < mark ∧ mark ≤ r.1.backlog then [r.1.backlog] else []

  /-- when everything outstanding has been accepted and nothing is left -/
  writeComplete : completions r.2 =
    if c.acceptsAll x = true ∧ r.1.backlog = 0 then 1 else 0

variable {mark : ℕ} {c : TcpConnection} {q data : List Byte} {w : WriteResult}

theorem exactCallbacks_of_le {x : OutputStep} {r : TcpConnection × List Effect}
    (hle : r.1.backlog ≤ c.backlog) (hmarks : highWaterMarks r.2 = [])
    (hcount : completions r.2 = if c.acceptsAll x = true ∧ r.1.backlog = 0 then 1 else 0) :
    ExactCallbacks mark c x r := by
  refine ⟨?_, hcount⟩
  rw [hmarks, if_neg]
  rintro ⟨hlt, hge⟩
  exact absurd (lt_of_lt_of_le hlt (le_trans hge hle)) (lt_irrefl _)

theorem highWaterMarks_queueWriteComplete : highWaterMarks c.queueWriteComplete = [] := by
  unfold queueWriteComplete
  split <;> rfl

theorem completions_queueHighWaterMark (n : ℕ) : completions (c.queueHighWaterMark n) = 0 := by
  unfold queueHighWaterMark
  dsimp only
  split <;> rfl

theorem Flowing.completions_queue (h : c.Flowing mark) : completions c.queueWriteComplete = 1 := by
  rw [queueWriteComplete, if_pos h.writeComplete]
  rfl

theorem Flowing.highWaterMarks_queue (h : c.Flowing mark) (n : ℕ) :
    highWaterMarks (c.queueHighWaterMark n) =
      if c.backlog < mark ∧ mark ≤ c.backlog + n then [c.backlog + n] else [] := by
  unfold queueHighWaterMark
  simp only [h.highWater, h.mark_eq, and_true, ge_iff_le]
  by_cases hcross : c.backlog < mark ∧ mark ≤ c.backlog + n
  · rw [if_pos hcross, if_pos ⟨hcross.2, hcross.1⟩]
    rfl
  · rw [if_neg hcross, if_neg fun h => hcross ⟨h.2, h.1⟩]
    rfl

theorem Flowing.writesDirectly_iff (h : c.Flowing mark) :
    c.writesDirectly = true ↔ c.backlog = 0 := by
  have hwatch := h.watched.iff_backlog h.live
  unfold writesDirectly backlog
  cases hw : c.channel.isWriting with
  | true =>
    have hpos := hwatch.mp hw
    simp only [Bool.not_true, Bool.false_and, Bool.false_eq_true, false_iff]
    omega
  | false => simp

theorem Flowing.keep {d : TcpConnection} (h : c.Flowing mark) (hd : d.Watched)
    (hs : d.state ≠ .kdisconnected) (hwc : d.writeCompleteCallback = c.writeCompleteCallback)
    (hhw : d.highWaterMarkCallback = c.highWaterMarkCallback)
    (hm : d.highWaterMark = c.highWaterMark) : d.Flowing mark :=
  ⟨hd, hs, hwc.trans h.writeComplete, hhw.trans h.highWater, hm.trans h.mark_eq⟩

/-- `SendInLoop` ends after a direct write, or stores the rest of the message. -/
theorem sendInLoop_cases {r : TcpConnection × List Effect} {nWrote : ℕ} {direct : List Effect}
    (hs : c.state ≠ .kdisconnected) (hn : nWrote = if c.writesDirectly then w.count else 0)
    (hd : direct = if c.writesDirectly then c.directWrite data w else [])
    (hr : c.sendInLoop data w = .ok r) :
    ((c.writesDirectly && w.faultError) = true ∨ data.length ≤ nWrote) ∧ r = (c, direct) ∨
    ((c.writesDirectly && w.faultError) = false ∧ nWrote < data.length ∧
      ∃ c', c.sendRest (data.drop nWrote) = .ok c' ∧
        r = (c', direct ++ c.queueHighWaterMark (data.length - nWrote))) := by
  unfold sendInLoop at hr
  simp only [if_neg hs, ← hn, ← hd] at hr
  obtain ⟨-, hr⟩ := check_bind_eq_ok hr
  split at hr
  · next hrest =>
    obtain ⟨c', hc', hr⟩ := bind_eq_ok hr
    cases hr
    exact .inr ⟨hrest.1, by omega, c', hc', rfl⟩
  · next hrest =>
    cases hr
    refine .inl ⟨?_, rfl⟩
    by_contra hnot
    obtain ⟨hfault, hlen⟩ := not_or.mp hnot
    exact hrest ⟨by simpa using hfault, by omega⟩

theorem sendRest_cases {c' : TcpConnection} {rest : List Byte} (hb : c.outputBuffer.Inv)
    (hc : c.sendRest rest = .ok c') :
    c'.backlog = c.backlog + rest.length ∧
      c'.writeCompleteCallback = c.writeCompleteCallback ∧
      c'.highWaterMarkCallback = c.highWaterMarkCallback ∧
      c'.highWaterMark = c.highWaterMark := by
  obtain ⟨b, hb', hc⟩ := bind_eq_ok hc
  cases hc
  have hrep := (append_represents hb.represents rest).of_eq hb'
  refine ⟨?_, rfl, rfl, rfl⟩
  rw [backlog, backlog, ← hrep.length, List.length_append, hb.represents.length]

theorem highWaterMarks_directWrite : highWaterMarks (c.directWrite data w) = [] := by
  unfold directWrite
  rw [highWaterMarks_cons_write]
  split
  · split
    · exact highWaterMarks_queueWriteComplete
    · rfl
  · rfl

theorem Flowing.completions_directWrite (h : c.Flowing mark) (hw : w.Within data.length) :
    completions (c.directWrite data w) = if w = .wrote data.length then 1 else 0 := by
  unfold directWrite
  rw [completions_cons_write]
  cases w with
  | wrote n =>
    have hle : n ≤ data.length := hw
    dsimp only
    by_cases hn : n = data.length
    · rw [if_pos (by omega), if_pos (by rw [hn]), h.completions_queue]
    · have hne : WriteResult.wrote n ≠ .wrote data.length := fun heq => hn (by injection heq)
      rw [if_neg (by omega), if_neg hne]
      rfl
  | error e => rfl

theorem Flowing.sendInLoop (h : c.Flowing mark) {r : TcpConnection × List Effect}
    (hr : c.sendInLoop data w = .ok r) : r.1.Flowing mark := by
  have hstate := (sendInLoop_yields h.watched.buffer.represents h.live).of_eq hr
  have hsettings : r.1.writeCompleteCallback = c.writeCompleteCallback ∧
      r.1.highWaterMarkCallback = c.highWaterMarkCallback ∧
      r.1.highWaterMark = c.highWaterMark := by
    obtain ⟨-, rfl⟩ | ⟨-, -, c', hc', rfl⟩ := sendInLoop_cases h.live rfl rfl hr
    · exact ⟨rfl, rfl, rfl⟩
    · exact (sendRest_cases h.watched.buffer hc').2
  refine h.keep (h.watched.sendInLoop hr) ?_ hsettings.1 hsettings.2.1 hsettings.2.2
  rw [hstate.state_eq]
  exact h.live

theorem Flowing.sendInLoop_exact (h : c.Flowing mark) {r : TcpConnection × List Effect}
    (ho : c.Ordinary (.sendInLoop data w)) (hr : c.sendInLoop data w = .ok r) :
    ExactCallbacks mark c (.sendInLoop data w) r := by
  have hdirect := h.writesDirectly_iff
  cases hd : c.writesDirectly with
  | true =>
    have hzero : c.backlog = 0 := hdirect.mp hd
    have hwithin : w.count ≤ data.length := ho.1 data w (by simp [socketWrite, hd])
    have hn : w.count = if c.writesDirectly then w.count else 0 := by rw [if_pos hd]
    have hfirst : c.directWrite data w = if c.writesDirectly then c.directWrite data w else [] := by
      rw [if_pos hd]
    have hcases := sendInLoop_cases h.live hn hfirst hr
    have haccepts : c.acceptsAll (.sendInLoop data w) = true ↔ w = .wrote data.length := by
      cases w <;> simp [acceptsAll, socketWrite, hd]
    obtain ⟨-, rfl⟩ | ⟨-, hlt, c', hc', rfl⟩ := hcases
    · refine exactCallbacks_of_le le_rfl highWaterMarks_directWrite ?_
      rw [h.completions_directWrite hwithin]
      simp only [haccepts, hzero, and_true]
    · have hback := (sendRest_cases h.watched.buffer hc').1
      rw [List.length_drop] at hback
      have hne : w ≠ .wrote data.length := by
        rintro rfl
        exact absurd hlt (lt_irrefl _)
      constructor
      · rw [highWaterMarks_append, highWaterMarks_directWrite, h.highWaterMarks_queue, hback]
        rfl
      · rw [completions_append, completions_queueHighWaterMark,
          h.completions_directWrite hwithin, if_neg hne, if_neg]
        exact fun hall => hne (haccepts.mp hall.1)
  | false =>
    have hn : 0 = if c.writesDirectly then w.count else 0 := by simp [hd]
    have hfirst : [] = if c.writesDirectly then c.directWrite data w else [] := by simp [hd]
    have hcases := sendInLoop_cases h.live hn hfirst hr
    have haccepts : c.acceptsAll (.sendInLoop data w) = false := by
      simp [acceptsAll, socketWrite, hd]
    rw [hd] at hcases
    obtain ⟨hnil, rfl⟩ | ⟨-, hpos, c', hc', rfl⟩ := hcases
    · refine exactCallbacks_of_le le_rfl rfl ?_
      rw [haccepts]
      rfl
    · have hback := (sendRest_cases h.watched.buffer hc').1
      rw [List.length_drop, Nat.sub_zero] at hback
      constructor
      · rw [List.nil_append, Nat.sub_zero, h.highWaterMarks_queue, hback]
      · rw [List.nil_append, completions_queueHighWaterMark, haccepts]
        rfl

theorem Flowing.handleWrite (h : c.Flowing mark) {r : TcpConnection × List Effect}
    (hr : c.handleWrite w = .ok r) : r.1.Flowing mark := by
  have hpost := handleWrite_writePost h.watched.buffer.represents hr
  have hwatched := h.watched.handleWrite hr
  cases hpost with
  | idle => exact h
  | some | all => exact h.keep hwatched h.live rfl rfl rfl

theorem isWriting_of_acceptsAll (h : c.acceptsAll (.handleWrite w) = true) :
    c.channel.isWriting = true := by
  unfold acceptsAll socketWrite at h
  by_contra hnot
  simp [hnot] at h

theorem Flowing.handleWrite_exact (h : c.Flowing mark) {r : TcpConnection × List Effect}
    (hr : c.handleWrite w = .ok r) : ExactCallbacks mark c (.handleWrite w) r := by
  have hlen : c.outputBuffer.content.length = c.backlog := h.watched.buffer.length_content
  have hwatch := h.watched.iff_backlog h.live
  cases handleWrite_writePost h.watched.buffer.represents hr with
  | idle =>
    refine exactCallbacks_of_le le_rfl rfl ?_
    rw [if_neg]
    · rfl
    · rintro ⟨hall, hzero⟩
      have hpos := hwatch.mp (isWriting_of_acceptsAll hall)
      exact absurd hzero (Nat.ne_of_gt hpos)
  | @some b hi hpos hlt hb =>
    have hrest : b.readableBytes = c.backlog - w.count := by
      rw [← hb.length, List.length_drop, hlen]
    have hle : b.readableBytes ≤ c.backlog := by omega
    refine exactCallbacks_of_le hle rfl ?_
    have hleft : b.readableBytes ≠ 0 := by omega
    rw [if_neg fun hall => hleft hall.2]
    rfl
  | @all b hi hall hb =>
    have hempty : b.readableBytes = 0 := hb.length.symm
    have hpos := hwatch.mp hi
    have hlast : ∀ fx : List Effect, fx = (if c.state = .kdisconnecting then
        [.shutdownWrite] else []) → highWaterMarks fx = [] ∧ completions fx = 0 := by
      rintro fx rfl
      split
      · exact ⟨rfl, rfl⟩
      · exact ⟨rfl, rfl⟩
    obtain ⟨hmarks, hcount⟩ := hlast _ rfl
    have haccepts : c.acceptsAll (.handleWrite w) = true := by
      cases w with
      | wrote n =>
        have hn : n = c.outputBuffer.content.length := hall
        simp [acceptsAll, socketWrite, hi, hn]
      | error e =>
        have hnone : 0 = c.outputBuffer.content.length := hall
        rw [hlen, backlog] at hnone
        omega
    have hle : b.readableBytes ≤ c.backlog := by omega
    refine exactCallbacks_of_le hle ?_ ?_
    · rw [List.cons_append, highWaterMarks_cons_write, highWaterMarks_append,
        highWaterMarks_queueWriteComplete, hmarks]
      rfl
    · rw [List.cons_append, completions_cons_write, completions_append, h.completions_queue,
        hcount, if_pos ⟨haccepts, hempty⟩]

theorem exists_handleWrite (hb : c.outputBuffer.Inv)
    (hw : c.channel.isWriting = true → w.Within c.outputBuffer.content.length) :
    ∃ r, c.handleWrite w = .ok r := by
  by_cases hi : c.channel.isWriting = true
  · obtain ⟨r, hr, -⟩ := handleWrite_yields hb.represents (hw hi)
    exact ⟨r, hr⟩
  · refine ⟨(c, []), ?_⟩
    unfold TcpConnection.handleWrite
    rw [if_neg hi]
    rfl

/-- A step keeps the connection live and queues its callbacks exactly. -/
theorem Flowing.perform_exact (h : c.Flowing mark) {x : OutputStep} (hx : c.Ordinary x) :
    Yields (c.perform x) fun r => r.1.Flowing mark ∧ ExactCallbacks mark c x r := by
  cases x with
  | sendInLoop message w =>
    obtain ⟨r, hr, -⟩ : Yields (c.sendInLoop message w) _ :=
      sendInLoop_yields h.watched.buffer.represents h.live
    exact ⟨r, hr, h.sendInLoop hr, h.sendInLoop_exact hx hr⟩
  | handleWrite w =>
    have hwithin : c.channel.isWriting = true → w.Within c.outputBuffer.content.length :=
      fun hi => hx.1 _ w (by simp [socketWrite, hi])
    obtain ⟨r, hr⟩ := exists_handleWrite h.watched.buffer hwithin
    exact ⟨r, hr, h.handleWrite hr, h.handleWrite_exact hr⟩
  | setState state =>
    refine yields_pure.mpr ⟨h.keep ?_ ?_ rfl rfl rfl, exactCallbacks_of_le le_rfl rfl rfl⟩
    · exact h.watched.keep rfl rfl fun _ => h.live
    · exact fun heq => hx.2 (by rw [show state = .kdisconnected from heq])

end TcpConnection

/-- A step of a connection, with the connection before and after it and its effects. -/
structure FlowEntry where
  before : TcpConnection
  step : OutputStep
  effects : List Effect
  after : TcpConnection

structure FlowRun where
  conn : TcpConnection
  log : List FlowEntry

namespace FlowRun

open TcpConnection

def step (s : FlowRun) (x : OutputStep) : Except Fault FlowRun := do
  let r ← s.conn.perform x
  return ⟨r.1, s.log ++ [⟨s.conn, x, r.2, r.1⟩]⟩

/-- The entries are those of the steps, and each has queued its callbacks exactly. -/
structure Exact (mark : ℕ) (s : FlowRun) (steps : List OutputStep) : Prop where
  flowing : s.conn.Flowing mark
  steps_eq : s.log.map FlowEntry.step = steps
  callbacks : ∀ e ∈ s.log, ExactCallbacks mark e.before e.step (e.after, e.effects)

/-- Between two callbacks that tell of the mark, the backlog was below it. -/
def Spaced (mark : ℕ) (log : List FlowEntry) : Prop :=
  ∀ l₁ e₁ l₂ e₂ l₃, log = l₁ ++ e₁ :: l₂ ++ e₂ :: l₃ → highWaterMarks e₁.effects ≠ [] →
    highWaterMarks e₂.effects ≠ [] → ∃ e ∈ l₂ ++ [e₂], e.before.backlog < mark

variable {mark : ℕ} {s : FlowRun} {steps : List OutputStep}

theorem Exact.spaced (h : s.Exact mark steps) : Spaced mark s.log := by
  rintro l₁ e₁ l₂ e₂ l₃ hlog - hne
  refine ⟨e₂, by simp, ?_⟩
  have hmarks := (h.callbacks e₂ (by rw [hlog]; simp)).highWater
  by_contra hge
  exact hne (hmarks.trans (if_neg fun hcross => hge hcross.1))

theorem step_exact (s : FlowRun) (steps : List OutputStep) (x : OutputStep)
    (h : s.Exact mark steps) (hx : s.conn.Ordinary x) :
    Yields (s.step x) fun s' => s'.Exact mark (steps ++ [x]) := by
  refine yields_bind (h.flowing.perform_exact hx) ?_
  rintro r ⟨hflow, hexact⟩
  refine yields_pure.mpr ⟨hflow, ?_, fun e he => ?_⟩
  · rw [List.map_append, h.steps_eq]
    rfl
  · rcases List.mem_append.mp he with he | he
    · exact h.callbacks e he
    · cases List.mem_singleton.mp he
      exact hexact

end FlowRun

end Dwater
