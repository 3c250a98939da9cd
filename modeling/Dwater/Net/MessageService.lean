import Dwater.Net.OutputStream
import Dwater.Base.Timestamp

/-! # Connections whose owner answers every message at once

`HandleRead` reads into the input buffer and calls the message callback, which answers in the loop's
thread with `Send` and `Shutdown`. Whatever the callback computes, the bytes the kernel has
taken and the backlog together are what it has sent up to its first `Shutdown`, and the
write side is closed when a `Shutdown` was made and all of these bytes are out. The callback itself
enters only through what it keeps from one message to the next.
-/

set_option autoImplicit false
namespace Dwater

open Fallible Buffer

/-- What a message callback does with its connection. -/
inductive Reply

  /-- `Send(const StringPiece& message)`. -/
  | sendPiece (message : StringPiece)

  /-- `Send(Buffer* buf)`, with the readable bytes of the buffer. -/
  | sendBuffer (content : List Byte)

  | shutdown
  deriving DecidableEq, Repr

namespace Reply

def bytes : Reply → List Byte
  | sendPiece message => message.ptr.take (toSizeT message.length)
  | sendBuffer content => content
  | shutdown => []

def Readable : Reply → Prop
  | sendPiece message => toSizeT message.length ≤ message.ptr.length
  | sendBuffer _ | shutdown => True

instance : DecidablePred Readable
  | sendPiece _ => inferInstanceAs (Decidable (_ ≤ _))
  | sendBuffer _ | shutdown => inferInstanceAs (Decidable True)

def sentBy : List Reply → List Byte
  | [] => []
  | shutdown :: _ => []
  | r :: rs => r.bytes ++ sentBy rs

variable {r : Reply} {rs : List Reply}

/-- Until a `Shutdown` every reply counts, and none after it. -/
theorem sentBy_concat : sentBy (rs ++ [r]) =
    if shutdown ∈ rs then sentBy rs else sentBy rs ++ r.bytes := by
  induction rs with
  | nil => cases r <;> simp [sentBy, bytes]
  | cons x rs ih =>
    cases x with
    | shutdown => simp [sentBy]
    | sendPiece message =>
      simp only [List.cons_append, sentBy, ih, List.mem_cons, reduceCtorEq, false_or]
      split <;> simp
    | sendBuffer content =>
      simp only [List.cons_append, sentBy, ih, List.mem_cons, reduceCtorEq, false_or]
      split <;> simp

theorem sentBy_of_notMem (h : shutdown ∉ rs) : sentBy rs = rs.flatMap bytes := by
  induction rs with
  | nil => rfl
  | cons x rs ih =>
    rw [List.mem_cons, not_or] at h
    cases x with
    | shutdown => exact absurd rfl h.1
    | sendPiece message => simp [sentBy, ih h.2]
    | sendBuffer content => simp [sentBy, ih h.2]

end Reply

def ReadvResult.data : ReadvResult → List Byte
  | .bytes data => data
  | .error _ => []

/-- The callback of a kind of server: it keeps a `σ` for the connection, may take bytes from the
input buffer, and replies. -/
abbrev MessageCallback (σ : Type) :=
  σ → Buffer → Timestamp → Except Fault (σ × Buffer × List Reply)

/-- A connection with what its callback keeps and the replies that the running callback has still to
make. The messages read, the replies made, the bytes the kernel has taken and the calls
of `ShutdownWrite` are recorded. -/
structure MessageService (σ : Type) where
  conn : TcpConnection
  app : σ
  replies : List Reply
  chunks : List (List Byte × Timestamp)
  replied : List Reply
  accepted : List Byte
  shutdownWrites : ℕ

inductive ServiceLabel

  /-- The poller reports the socket readable. -/
  | readable (r : ReadvResult) (receiveTime : Timestamp)

  /-- The callback makes its next reply. -/
  | reply (w : WriteResult)

  /-- The poller reports the socket writable. -/
  | writable (w : WriteResult)
  deriving DecidableEq, Repr

namespace TcpConnection

/-- `Send` in the loop's thread; the bytes are read only on an open connection. -/
def sendReply (c : TcpConnection) (r : Reply) (w : WriteResult) :
    Except Fault (TcpConnection × List Effect) := do
  check (c.state = .kconnected → r.Readable) (.outOfBounds .tcp_connection_cc 119)
  c.send true r.bytes w

/-- `Shutdown` in the loop's thread, where `ShutdownInLoop` runs at once. -/
def shutdownNow (c : TcpConnection) : TcpConnection × List Effect :=
  let (c, fx) := c.shutdown
  (c, fx.flatMap fun
    | .runInLoop .shutdownInLoop => c.shutdownInLoop
    | e => [e])

section

variable {c : TcpConnection} {r : Reply} {w : WriteResult} {q : List Byte}

theorem sendReply_of_ne (h : c.state ≠ .kconnected) : c.sendReply r w = .ok (c, []) := by
  unfold sendReply
  rw [check_bind_of_true (fun hc => absurd hc h), send, if_neg h]
  rfl

theorem sendReply_yields (hb : c.outputBuffer.Represents q) (hs : c.state = .kconnected)
    (hr : r.Readable) : Yields (c.sendReply r w) (SendPost c q r.bytes w) := by
  unfold sendReply
  rw [check_bind_of_true fun _ => hr, send, if_pos hs]
  exact sendInLoop_yields hb (by simp [hs])

theorem shutdownNow_of_ne (h : c.state ≠ .kconnected) : c.shutdownNow = (c, []) := by
  simp [shutdownNow, shutdown, h]

theorem shutdownNow_of_eq (h : c.state = .kconnected) : c.shutdownNow =
    (c.setState .kdisconnecting, if c.channel.isWriting then [] else [.shutdownWrite]) := by
  simp [shutdownNow, shutdown, h, shutdownInLoop, setState]

theorem count_shutdownWrite {fx : List Effect} (h : ∀ e ∈ fx, Effect.IsOutput e) :
    fx.count .shutdownWrite = 0 := by
  rw [List.count_eq_zero]
  intro hm
  exact h _ hm

theorem count_queueWriteComplete : c.queueWriteComplete.count .shutdownWrite = 0 :=
  count_shutdownWrite fun _ => queueWriteComplete_output

end

end TcpConnection

open TcpConnection

namespace MessageService

variable {σ : Type}

def new (conn : TcpConnection) (app : σ) : MessageService σ :=
  { conn, app, replies := [], chunks := [], replied := [], accepted := [], shutdownWrites := 0 }

/-- Keep the connection a method leaves and record what it did outside. -/
def after (s : MessageService σ) (r : TcpConnection × List Effect) : MessageService σ :=
  { s with
    conn := r.1
    accepted := s.accepted ++ written r.2
    shutdownWrites := s.shutdownWrites + r.2.count .shutdownWrite }

/-- `HandleRead` with the message callback, up to the callback's first reply. -/
def readable (callback : MessageCallback σ) (s : MessageService σ) (r : ReadvResult)
    (receiveTime : Timestamp) : Except Fault (MessageService σ) := do
  let (conn, fx) ← s.conn.handleRead r
  let s := s.after (conn, fx)
  if .messageCallback ∈ fx then
    let (app, inputBuffer, replies) ← callback s.app conn.inputBuffer receiveTime
    return { s with
      conn := { conn with inputBuffer := inputBuffer }
      app := app
      replies := replies
      chunks := s.chunks ++ [(r.data, receiveTime)] }
  else
    return s

def reply (s : MessageService σ) (w : WriteResult) : Except Fault (MessageService σ) :=
  match s.replies with
  | [] => return s
  | r :: rest =>
    let s := { s with replies := rest, replied := s.replied ++ [r] }
    match r with
    | .shutdown => return s.after s.conn.shutdownNow
    | .sendPiece _ | .sendBuffer _ => s.after <$> s.conn.sendReply r w

/-- One step. The loop's thread goes on when the callback has returned; a channel reports no data
to a connection that does not read. -/
def step (callback : MessageCallback σ) (s : MessageService σ) :
    ServiceLabel → Except Fault (MessageService σ)
  | .readable r receiveTime =>
    if s.replies = [] ∧ s.conn.channel.isReading = true then s.readable callback r receiveTime
    else return s
  | .reply w => s.reply w
  | .writable w =>
    if s.replies = [] then s.after <$> s.conn.handleWrite w else return s

/-- The kernel gives and takes no more than there is room or data for, and `SendInLoop` gives no
message up. -/
def Allowed (s : MessageService σ) : ServiceLabel → Prop
  | .readable (.bytes data) _ => data.length ≤ s.conn.inputBuffer.readvRoom
  | .readable (.error _) _ => True
  | .reply w => ∀ r ∈ s.replies.head?, w.Soft r.bytes.length
  | .writable w => w.Within s.conn.outputBuffer.readableBytes

def chunk (s : MessageService σ) : ServiceLabel → Option (List Byte × Timestamp)
  | .readable (.bytes data) receiveTime =>
    if s.replies = [] ∧ s.conn.channel.isReading = true ∧ data ≠ [] then some (data, receiveTime)
    else none
  | _ => none

/-- What the callback keeps: `I` relates what it has for the connection to the chunks so far, the
input buffer and the replies so far, and holds again after every chunk that `C` admits. -/
def Keeps (callback : MessageCallback σ)
    (I : σ → List (List Byte × Timestamp) → Buffer → List Reply → Prop)
    (C : List (List Byte × Timestamp) → List Byte × Timestamp → Prop) : Prop :=
  ∀ app chunks b b' out x, I app chunks b out → b.Inv → C chunks x → x.1 ≠ [] →
    x.1.length ≤ b.readvRoom → b.readFd (.bytes x.1) = .ok (b', ↑x.1.length, none) →
    Yields (callback app b' x.2) fun r =>
      I r.1 (chunks ++ [x]) r.2.1 (out ++ r.2.2) ∧ r.2.1.Inv ∧ ∀ reply ∈ r.2.2, reply.Readable

/-- How far the connection is: open, with its write side closing, or closed by the peer. -/
inductive Stage (s : MessageService σ) : Prop

  | opened : s.conn.state = .kconnected → .shutdown ∉ s.replied → s.shutdownWrites = 0 →
      (s.conn.channel.isWriting = true ↔ s.conn.outputBuffer.content ≠ []) → Stage s

  | shut : s.conn.state = .kdisconnecting → .shutdown ∈ s.replied →
      s.shutdownWrites = (if s.conn.outputBuffer.content = [] then 1 else 0) →
      (s.conn.channel.isWriting = true ↔ s.conn.outputBuffer.content ≠ []) → Stage s

  | closed : s.conn.state = .kdisconnected → s.replies = [] →
      s.conn.channel.isNoneEvent = true → s.shutdownWrites ≤ 1 →
      (s.shutdownWrites = 1 ↔ .shutdown ∈ s.replied ∧ s.conn.outputBuffer.content = []) → Stage s

structure Inv (I : σ → List (List Byte × Timestamp) → Buffer → List Reply → Prop)
    (s : MessageService σ) : Prop where
  app : I s.app s.chunks s.conn.inputBuffer (s.replied ++ s.replies)
  input : s.conn.inputBuffer.Inv
  backlog : s.conn.outputBuffer.Inv
  readable : ∀ r ∈ s.replies, r.Readable
  stream : s.accepted ++ s.conn.outputBuffer.content = Reply.sentBy s.replied
  stage : s.Stage

variable {callback : MessageCallback σ}
  {C : List (List Byte × Timestamp) → List Byte × Timestamp → Prop}
  {I : σ → List (List Byte × Timestamp) → Buffer → List Reply → Prop} {s : MessageService σ}

/-- The chunks so far and the one that the step reads, if it reads one. -/
def Admitted (C : List (List Byte × Timestamp) → List Byte × Timestamp → Prop)
    (s : MessageService σ) (l : ServiceLabel) : Prop :=
  s.Allowed l ∧ ∀ x ∈ s.chunk l, C s.chunks x

/-- Where the replies have gone, and whether the write side is closed. -/
structure Faithful (s : MessageService σ) : Prop where
  stream : s.accepted ++ s.conn.outputBuffer.content = Reply.sentBy s.replied
  once : s.shutdownWrites ≤ 1
  complete : s.shutdownWrites = 1 ↔ .shutdown ∈ s.replied ∧ s.conn.outputBuffer.content = []
  opened : s.conn.state = .kconnected → .shutdown ∉ s.replied
  shut : s.conn.state = .kdisconnecting → .shutdown ∈ s.replied

theorem Inv.faithful (h : s.Inv I) : s.Faithful := by
  obtain ⟨-, -, -, -, hstream, hstage⟩ := h
  cases hstage with
  | opened hstate hno hzero _ =>
    refine ⟨hstream, by omega, ?_, fun _ => hno, fun hs => ?_⟩
    · simp [hzero, hno]
    · rw [hstate] at hs
      cases hs
  | shut hstate hin hcount _ =>
    refine ⟨hstream, ?_, ?_, fun hs => ?_, fun _ => hin⟩
    · rw [hcount]
      split <;> omega
    · simp [hcount, hin]
    · rw [hstate] at hs
      cases hs
  | closed hstate _ _ hle hone =>
    refine ⟨hstream, hle, hone, fun hs => ?_, fun hs => ?_⟩
    · rw [hstate] at hs
      cases hs
    · rw [hstate] at hs
      cases hs

theorem readFd_nil (b : Buffer) : b.readFd (.bytes []) = .ok (b, 0, none) := by
  rw [readFd, List.take_nil, store_nil, ok_bind]
  simp
  rfl

/-- A step of the connection that leaves the callback's side alone keeps the invariant when it
accounts for what it wrote. -/
theorem Inv.after (h : s.Inv I) {r : TcpConnection × List Effect}
    (hi : r.1.inputBuffer = s.conn.inputBuffer) (hb : r.1.outputBuffer.Inv)
    (hw : written r.2 ++ r.1.outputBuffer.content = s.conn.outputBuffer.content)
    (hs : (s.after r).Stage) : (s.after r).Inv I := by
  constructor
  · simpa only [MessageService.after, hi] using h.app
  · simpa only [MessageService.after, hi] using h.input
  · exact hb
  · exact h.readable
  · simp only [MessageService.after, List.append_assoc, hw]
    exact h.stream
  · exact hs

theorem handleWrite_inv (h : s.Inv I) {w : WriteResult}
    (hw : w.Within s.conn.outputBuffer.readableBytes) :
    Yields (s.after <$> s.conn.handleWrite w) (Inv I) := by
  have hq := h.backlog.represents
  have hwithin : w.Within s.conn.outputBuffer.content.length := by
    rw [h.backlog.length_content]
    exact hw
  refine yields_map (handleWrite_yields hq hwithin) fun r hr => ?_
  obtain ⟨q', hq', he⟩ := hr.backlog hq
  have hcontent : written r.2 ++ r.1.outputBuffer.content = s.conn.outputBuffer.content := by
    rw [hq'.2, he]
  cases hr with
  | idle =>
    refine h.after rfl hq'.1 hcontent ?_
    cases h.stage with
    | opened h₁ h₂ h₃ h₄ => exact .opened h₁ h₂ (by simpa [MessageService.after] using h₃) h₄
    | shut h₁ h₂ h₃ h₄ => exact .shut h₁ h₂ (by simpa [MessageService.after] using h₃) h₄
    | closed h₁ h₂ h₃ h₄ h₅ =>
      exact .closed h₁ h₂ h₃ (by simpa [MessageService.after] using h₄)
        (by simpa [MessageService.after] using h₅)
  | @some b hwriting hpos hlt hb =>
    refine h.after rfl hq'.1 hcontent ?_
    have hne : b.content ≠ [] := by
      intro hnil
      have := congrArg List.length (hb.2.symm.trans hnil)
      simp only [List.length_drop, List.length_nil] at this
      omega
    have hold : s.conn.outputBuffer.content ≠ [] := by
      intro hnil
      simp [hnil] at hlt
    cases h.stage with
    | opened h₁ h₂ h₃ h₄ =>
      refine .opened h₁ h₂ (by simpa [MessageService.after] using h₃) ?_
      simpa [MessageService.after, hwriting] using hne
    | shut h₁ h₂ h₃ h₄ =>
      refine .shut h₁ h₂ ?_ (by simpa [MessageService.after, hwriting] using hne)
      simpa [MessageService.after, hne, hold] using h₃
    | closed h₁ h₂ h₃ h₄ h₅ => simp [Channel.isWriting_of_isNoneEvent _ h₃] at hwriting
  | @all b hwriting hall hb =>
    refine h.after rfl hq'.1 hcontent ?_
    cases h.stage with
    | opened h₁ h₂ h₃ h₄ =>
      refine .opened h₁ h₂ ?_ (by simp [MessageService.after, hb.2])
      simp [MessageService.after, h₁, h₃, count_queueWriteComplete]
    | shut h₁ h₂ h₃ h₄ =>
      have hold : s.conn.outputBuffer.content ≠ [] := h₄.mp hwriting
      refine .shut h₁ h₂ ?_ (by simp [MessageService.after, hb.2])
      simp [MessageService.after, h₁, h₃, hold, hb.2, count_queueWriteComplete]
    | closed h₁ h₂ h₃ h₄ h₅ => simp [Channel.isWriting_of_isNoneEvent _ h₃] at hwriting

theorem Inv.skip {r : Reply} {rest : List Reply} (h : s.Inv I) (hr : s.replies = r :: rest)
    (hs : s.conn.state = .kdisconnecting) :
    ({ s with replies := rest, replied := s.replied ++ [r] }.after (s.conn, [])).Inv I := by
  have happ := h.app
  rw [hr, List.append_cons] at happ
  cases h.stage with
  | opened h₁ => rw [h₁] at hs; cases hs
  | closed h₁ => rw [h₁] at hs; cases hs
  | shut h₁ h₂ h₃ h₄ =>
    refine ⟨happ, h.input, h.backlog, fun x hx => h.readable x ?_, ?_, ?_⟩
    · rw [hr]
      exact List.mem_cons_of_mem r hx
    · simp only [MessageService.after, written_nil, List.append_nil, Reply.sentBy_concat, if_pos h₂]
      exact h.stream
    · refine .shut h₁ (List.mem_append_left _ h₂) ?_ h₄
      simpa [MessageService.after] using h₃

/-- The callback has replies to make only on a connection that the peer has not closed. -/
theorem Inv.state_of_cons {r : Reply} {rest : List Reply} (h : s.Inv I)
    (hr : s.replies = r :: rest) : s.conn.state = .kconnected ∨ s.conn.state = .kdisconnecting := by
  cases h.stage with
  | opened h₁ => exact .inl h₁
  | shut h₁ => exact .inr h₁
  | closed _ h₂ => rw [h₂] at hr; cases hr

theorem send_inv {r : Reply} {rest : List Reply} {w : WriteResult} (h : s.Inv I)
    (hr : s.replies = r :: rest) (hne : r ≠ .shutdown) (hw : w.Soft r.bytes.length) :
    Yields ({ s with replies := rest, replied := s.replied ++ [r] }.after <$> s.conn.sendReply r w)
      (Inv I) := by
  rcases h.state_of_cons hr with hstate | hstate
  · have happ := h.app
    rw [hr, List.append_cons] at happ
    have hread : r.Readable := h.readable r (by rw [hr]; exact List.mem_cons_self)
    refine yields_map (sendReply_yields h.backlog.represents hstate hread) fun x hx => ?_
    obtain ⟨q', hq', hsent, hchannel⟩ := hx.backlog
    have hcount := count_shutdownWrite hx.output
    cases h.stage with
    | shut h₁ => rw [hstate] at h₁; cases h₁
    | closed h₁ => rw [hstate] at h₁; cases h₁
    | opened h₁ h₂ h₃ h₄ =>
      constructor
      · simpa only [MessageService.after, hx.input_eq] using happ
      · simpa only [MessageService.after, hx.input_eq] using h.input
      · exact hq'.1
      · intro y hy
        exact h.readable y (by rw [hr]; exact List.mem_cons_of_mem r hy)
      · have hkeep : (s.conn.writesDirectly && w.faultError) = false := by rw [hw.2, Bool.and_false]
        simp only [MessageService.after, List.append_assoc, hq'.2, hsent hkeep,
          Reply.sentBy_concat, if_neg h₂]
        rw [← List.append_assoc, h.stream]
      · refine .opened (hx.state_eq.trans h₁) ?_ ?_ ?_
        · simp [MessageService.after, h₂, hne.symm]
        · simp [MessageService.after, h₃, hcount]
        · simp only [MessageService.after, hq'.2]
          rcases hchannel with ⟨hc, rfl⟩ | ⟨hwriting, hnil⟩
          · rw [hc]
            exact h₄
          · simp [hwriting, hnil]
  · rw [sendReply_of_ne (by simp [hstate])]
    exact yields_ok.mpr (h.skip hr hstate)

theorem shutdown_inv {rest : List Reply} (h : s.Inv I) (hr : s.replies = .shutdown :: rest) :
    ({ s with replies := rest, replied := s.replied ++ [Reply.shutdown] }.after
      s.conn.shutdownNow).Inv I := by
  rcases h.state_of_cons hr with hstate | hstate
  · have happ := h.app
    rw [hr, List.append_cons] at happ
    rw [shutdownNow_of_eq hstate]
    cases h.stage with
    | shut h₁ => rw [hstate] at h₁; cases h₁
    | closed h₁ => rw [hstate] at h₁; cases h₁
    | opened h₁ h₂ h₃ h₄ =>
      have hwritten : written (if s.conn.channel.isWriting then [] else [.shutdownWrite]) = [] := by
        split <;> rfl
      refine ⟨happ, h.input, h.backlog, fun y hy => h.readable y ?_, ?_, ?_⟩
      · rw [hr]
        exact List.mem_cons_of_mem _ hy
      · simp only [MessageService.after, hwritten, List.append_nil, Reply.sentBy_concat, if_neg h₂,
          Reply.bytes, setState]
        exact h.stream
      · refine .shut rfl (by simp [MessageService.after]) ?_ h₄
        by_cases hnil : s.conn.outputBuffer.content = []
        · have hw : s.conn.channel.isWriting = false := by simpa [hnil] using h₄
          simp [MessageService.after, setState, h₃, hw, hnil]
        · simp [MessageService.after, setState, h₃, h₄.mpr hnil, hnil]
  · rw [shutdownNow_of_ne (by simp [hstate])]
    exact h.skip hr hstate

theorem reply_inv (h : s.Inv I) {w : WriteResult}
    (hw : ∀ r ∈ s.replies.head?, w.Soft r.bytes.length) : Yields (s.reply w) (Inv I) := by
  unfold reply
  split
  · exact yields_pure.mpr h
  · next r rest hr =>
    have hsoft : w.Soft r.bytes.length := hw r (by rw [hr]; rfl)
    cases r with
    | shutdown => exact yields_pure.mpr (shutdown_inv h hr)
    | sendPiece message => exact send_inv h hr (by simp) hsoft
    | sendBuffer content => exact send_inv h hr (by simp) hsoft

theorem Inv.state_of_isReading (h : s.Inv I) (hr : s.conn.channel.isReading = true) :
    s.conn.state = .kconnected ∨ s.conn.state = .kdisconnecting := by
  cases h.stage with
  | opened h₁ => exact .inl h₁
  | shut h₁ => exact .inr h₁
  | closed _ _ h₃ => simp [Channel.isReading_of_isNoneEvent _ h₃] at hr

theorem handleClose_inv (h : s.Inv I) (hr : s.replies = [])
    (hs : s.conn.state = .kconnected ∨ s.conn.state = .kdisconnecting) :
    Yields s.conn.handleClose fun r => .messageCallback ∉ r.2 ∧ (s.after r).Inv I := by
  unfold handleClose
  rw [check_bind_of_true hs]
  refine yields_pure.mpr ⟨by simp, h.after rfl h.backlog rfl ?_⟩
  exact .closed rfl hr (Channel.isNoneEvent_disableAll _) h.faithful.once h.faithful.complete

theorem readable_nil_inv {receiveTime : Timestamp} (h : s.Inv I) (hr : s.replies = [])
    (hs : s.conn.state = .kconnected ∨ s.conn.state = .kdisconnecting) :
    Yields (s.readable callback (.bytes []) receiveTime) (Inv I) := by
  obtain ⟨r, hclose, hno, hinv⟩ := handleClose_inv h hr hs
  have hread : s.conn.handleRead (.bytes []) = .ok r := by
    rw [← hclose, handleRead, readFd_nil]
    rfl
  unfold readable
  rw [hread, ok_bind]
  simp only [hno, if_false]
  exact yields_pure.mpr hinv

theorem readable_error_inv {errno : ℕ} {receiveTime : Timestamp} (h : s.Inv I) :
    Yields (s.readable callback (.error errno) receiveTime) (Inv I) := by
  have hread : s.conn.handleRead (.error errno) = .ok (s.conn, []) := rfl
  unfold readable
  rw [hread, ok_bind]
  refine yields_pure.mpr ⟨h.app, h.input, h.backlog, h.readable, ?_, ?_⟩
  · simpa [MessageService.after] using h.stream
  · cases h.stage with
    | opened h₁ h₂ h₃ h₄ => exact .opened h₁ h₂ (by simpa [MessageService.after] using h₃) h₄
    | shut h₁ h₂ h₃ h₄ => exact .shut h₁ h₂ (by simpa [MessageService.after] using h₃) h₄
    | closed h₁ h₂ h₃ h₄ h₅ =>
      exact .closed h₁ h₂ h₃ (by simpa [MessageService.after] using h₄)
        (by simpa [MessageService.after] using h₅)

theorem chunk_inv (hk : Keeps callback I C) (h : s.Inv I) (hr : s.replies = [])
    (hs : s.conn.state = .kconnected ∨ s.conn.state = .kdisconnecting) {data : List Byte}
    {receiveTime : Timestamp} (hne : data ≠ []) (hroom : data.length ≤ s.conn.inputBuffer.readvRoom)
    (hc : C s.chunks (data, receiveTime)) :
    Yields (s.readable callback (.bytes data) receiveTime) (Inv I) := by
  have hpos : 0 < data.length := List.length_pos_of_ne_nil hne
  obtain ⟨⟨b, n, e⟩, hread, hb, hn⟩ := readFd_represents h.input.represents data
  obtain ⟨rfl, rfl⟩ := Prod.mk.inj hn
  have happ := h.app
  rw [hr, List.append_nil] at happ
  obtain ⟨⟨app, input, replies⟩, hcall, happ', hinput, hreadable⟩ := hk s.app s.chunks
    s.conn.inputBuffer b s.replied (data, receiveTime) happ h.input hc hne hroom hread
  have hn : (data.length : ℤ) > 0 := by omega
  simp only [readable, handleRead, hread, ok_bind, if_pos hn, pure_bind, List.mem_singleton,
    if_true]
  simp only [MessageService.after]
  rw [hcall, ok_bind]
  refine yields_pure.mpr ⟨happ', hinput, h.backlog, hreadable, ?_, ?_⟩
  · simpa [written] using h.stream
  · cases h.stage with
    | opened h₁ h₂ h₃ h₄ => exact .opened h₁ h₂ (by simpa using h₃) h₄
    | shut h₁ h₂ h₃ h₄ => exact .shut h₁ h₂ (by simpa using h₃) h₄
    | closed h₁ => rcases hs with hs | hs <;> rw [hs] at h₁ <;> cases h₁

theorem step_inv (hk : Keeps callback I C) (s : MessageService σ) (l : ServiceLabel) (h : s.Inv I)
    (hl : s.Admitted C l) : Yields (s.step callback l) (Inv I) := by
  obtain ⟨hallowed, hchunk⟩ := hl
  cases l with
  | reply w => exact reply_inv h hallowed
  | writable w =>
    simp only [step]
    split
    · exact handleWrite_inv h hallowed
    · exact yields_pure.mpr h
  | readable r receiveTime =>
    simp only [step]
    split
    · next hcan =>
      have hstate := h.state_of_isReading hcan.2
      cases r with
      | error errno => exact readable_error_inv h
      | bytes data =>
        by_cases hne : data = []
        · rw [hne]
          exact readable_nil_inv h hcan.1 hstate
        · refine chunk_inv hk h hcan.1 hstate hne hallowed (hchunk _ ?_)
          simp [chunk, hcan, hne]
    · exact yields_pure.mpr h

/-- The connection has been established and nothing was read or sent. -/
structure Fresh (c : TcpConnection) : Prop where
  state : c.state = .kconnected
  input : c.inputBuffer.Represents []
  output : c.outputBuffer.Represents []
  idle : c.channel.isWriting = false

theorem Fresh.inv {c : TcpConnection} {app : σ} (h : Fresh c) (happ : I app [] c.inputBuffer []) :
    (new c app).Inv I := by
  refine ⟨happ, h.input.1, h.output.1, by simp [new], ?_, ?_⟩
  · simpa [new, Reply.sentBy] using h.output.2
  · refine .opened h.state (by simp [new]) rfl ?_
    simp [new, h.idle, h.output.2]

/-- Every run of a service keeps what the callback keeps. -/
theorem run_inv (hk : Keeps callback I C) {c : TcpConnection} {app : σ} (hc : Fresh c)
    (happ : I app [] c.inputBuffer []) {labels : List ServiceLabel}
    (h : Along (step callback) (Admitted C) (new c app) labels) :
    Yields (run (step callback) (new c app) labels) (Inv I) :=
  run_invariant (step_inv hk) (hc.inv happ) h

/-- Whatever the callback makes of the messages, and however the kernel splits the bytes that it
gives and takes, the kernel has taken what was sent up to the first `Shutdown` but for the backlog,
and the write side is closed once, when a `Shutdown` has been made and the backlog is empty. -/
theorem replies_leave_in_order (callback : MessageCallback σ)
    (hcallback : ∀ app b t, b.Inv → Yields (callback app b t) fun r =>
      r.2.1.Inv ∧ ∀ reply ∈ r.2.2, reply.Readable)
    (c : TcpConnection) (app : σ) (hc : Fresh c) (labels : List ServiceLabel)
    (h : Along (step callback) Allowed (new c app) labels) :
    Yields (run (step callback) (new c app) labels) Faithful := by
  have hk : Keeps callback (fun _ _ _ _ => True) (fun _ _ => True) := by
    intro app chunks b b' out x _ hb _ _ _ hread
    have hb' := ((readFd_represents hb.represents x.1).of_eq hread).1.1
    exact (hcallback app b' x.2 hb').mono fun r hr => ⟨trivial, hr⟩
  have hal : Along (step callback) (Admitted fun _ _ => True) (new c app) labels :=
    h.mono fun s l hl => ⟨hl, fun _ _ => trivial⟩
  exact (run_inv hk hc trivial hal).mono fun s hs => hs.faithful

/-- A message is sent back and the connection shut down; the kernel takes one byte of two at
first. -/
theorem replies_leave_in_order_partial_write :
    Yields (run (step fun (_ : Unit) b _ =>
        (fun r => ((), r.1, [.sendBuffer r.2, .shutdown])) <$> b.retrieveAllAsString)
      (new idleConnection ())
      [.readable (.bytes [104, 105]) .invalid, .reply (.wrote 1), .reply (.wrote 0),
        .writable (.wrote 1)]) Faithful := by
  refine replies_leave_in_order _ ?_ idleConnection () ?_ _ ?_
  · intro _ b _ hb
    have hr := retrieveAsString_represents hb.represents (le_of_eq hb.length_content.symm)
    exact yields_map hr fun r h => ⟨h.1.1, by simp [Reply.Readable]⟩
  · have hb : idleConnection.inputBuffer.Represents [] := ⟨⟨by decide, by decide, by decide⟩, rfl⟩
    exact ⟨rfl, hb, hb, by decide⟩
  · refine ⟨show (2 : ℕ) ≤ 65536 by decide, fun s hs => ?_⟩
    cases hs
    refine ⟨fun r hr => ?_, fun s hs => ?_⟩
    · cases hr
      exact ⟨show (1 : ℕ) ≤ 2 by decide, rfl⟩
    cases hs
    refine ⟨fun r hr => ?_, fun s hs => ?_⟩
    · cases hr
      exact ⟨show (0 : ℕ) ≤ 0 by decide, rfl⟩
    cases hs
    exact ⟨show (1 : ℕ) ≤ 1 by decide, fun _ _ => trivial⟩

end MessageService

end Dwater
