import Mathlib.Data.List.Perm.Basic
import Mathlib.Data.List.Range
import Dwater.Net.Client.Connector

/-! # The sockets of a connector

A socket that `Connect` has created is in the hands of the connector until it is closed or
given to `new_connection_callback_`. Every method passes on the sockets that it finds and
the one that it creates, and keeps none twice. Sockets are told apart by numbers that are not
used twice; the loop is present as the queue of the connector's functors and its timers.
-/

set_option autoImplicit false
namespace Dwater

open Fallible

/-- A connector with what it has asked the loop for, the callbacks of its channel still to be
called, and the sockets that it has created, closed and handed over. -/
structure ConnectorRun where
  connector : Connector
  functors : List ConnectorFunctor
  timers : ℕ
  active : List ChannelCallback
  nextSockfd : ℕ
  closed : List ℕ
  handed : List ℕ
  deriving DecidableEq, Repr

/-- A step of the loop's thread, with the answers of the system, or a call of a user. -/
inductive ConnectorLabel
  | start (inLoopThread : Bool) (errno : ConnectErrno)
  | stop

  /-- `RemoveConnection` of the client, when the connector has connected -/
  | restart (errno : ConnectErrno)

  /-- the loop calls `HandleEvent` of the channel -/
  | event (revents : BitVec 32)

  /-- the channel calls its next callback -/
  | callback (err : ℕ) (selfConnect : Bool)

  | expire (errno : ConnectErrno)
  | runFunctor (errno : ConnectErrno)
  deriving DecidableEq, Repr

namespace ConnectorRun

def new : ConnectorRun :=
  { connector := .new, functors := [], timers := 0, active := [], nextSockfd := 0, closed := [],
    handed := [] }

def perform (s : ConnectorRun) : ConnectorEffect → ConnectorRun
  | .runInLoop f | .queueInLoop f => { s with functors := s.functors ++ [f] }
  | .runAfter _ => { s with timers := s.timers + 1 }
  | .updateChannel _ | .removeChannel _ => s
  | .close sockfd => { s with closed := s.closed ++ [sockfd] }
  | .newConnectionCallback sockfd => { s with handed := s.handed ++ [sockfd] }

def after (s : ConnectorRun) (r : Connector × List ConnectorEffect) : ConnectorRun :=
  r.2.foldl perform { s with connector := r.1 }

/-- `StartInLoop`, which creates a socket if the connector is to connect. -/
def startInLoop (s : ConnectorRun) (errno : ConnectErrno) : Except Fault ConnectorRun := do
  let r ← s.connector.startInLoop s.nextSockfd errno
  return after { s with
    nextSockfd := if s.connector.connect then s.nextSockfd + 1 else s.nextSockfd } r

def restart (s : ConnectorRun) (errno : ConnectErrno) : Except Fault ConnectorRun := do
  let r ← s.connector.restart s.nextSockfd errno
  return after { s with nextSockfd := s.nextSockfd + 1 } r

def callback (s : ConnectorRun) (err : ℕ) (selfConnect : Bool) :
    ChannelCallback → Except Fault ConnectorRun
  | .write => do return s.after (← s.connector.handleWrite err selfConnect)
  | .error => do return s.after (← s.connector.handleError)
  | .read | .close => return s

def runFunctor (s : ConnectorRun) (errno : ConnectErrno) :
    ConnectorFunctor → Except Fault ConnectorRun
  | .startInLoop => s.startInLoop errno
  | .stopInLoop => do return s.after (← s.connector.stopInLoop)
  | .resetChannel => do return { s with connector := ← s.connector.resetChannel }

/-- One step. Users may call between the callbacks of an event, from `new_connection_callback_`;
further events, timers and functors wait until all have been called. -/
def step (s : ConnectorRun) : ConnectorLabel → Except Fault ConnectorRun
  | .start false _ => return s.after s.connector.start
  | .start true errno => startInLoop { s with connector := s.connector.start.1 } errno
  | .stop => return s.after s.connector.stop
  | .restart errno => if s.connector.state = .kconnected then s.restart errno else return s
  | .event revents =>
    if s.active = [] ∧ s.connector.channel ≠ none then
      return { s with active := Channel.handleEventWithGuard Connector.callbacks revents }
    else return s
  | .callback err selfConnect =>
    match s.active with
    | x :: rest => callback { s with active := rest } err selfConnect x
    | [] => return s
  | .expire errno =>
    if s.active = [] ∧ 0 < s.timers then startInLoop { s with timers := s.timers - 1 } errno
    else return s
  | .runFunctor errno =>
    match s.active, s.functors with
    | [], f :: rest => runFunctor { s with functors := rest } errno f
    | _, _ => return s

end ConnectorRun

namespace Connector

def held (c : Connector) : List ℕ :=
  if c.state = .kconnecting then (c.channel.map Channel.fd).toList else []

def Busy (c : Connector) : Prop :=
  c.state = .kconnecting → ∃ ch, c.channel = some ch ∧ ch.addedToLoop = true

def closedBy : ConnectorEffect → Option ℕ
  | .close sockfd => some sockfd
  | _ => none

def handedBy : ConnectorEffect → Option ℕ
  | .newConnectionCallback sockfd => some sockfd
  | _ => none

/-- The sockets that a method has found and created are held, closed or handed over, each once. -/
structure PassesOn (c : Connector) (created : List ℕ) (r : Connector × List ConnectorEffect) :
    Prop where
  sockets : (r.1.held ++ r.2.filterMap closedBy ++ r.2.filterMap handedBy).Perm (c.held ++ created)
  busy : r.1.Busy

variable {c c' : Connector} {fd : ℕ} {errno : ConnectErrno} {r : Connector × List ConnectorEffect}

theorem held_of_ne (h : c.state ≠ .kconnecting) : c.held = [] := if_neg h

theorem busy_of_ne (h : c.state ≠ .kconnecting) : c.Busy := fun hs => absurd hs h

theorem retry_closes (c : Connector) (fd : ℕ) (fx : List ConnectorEffect)
    (hc : fx.filterMap closedBy = []) (hh : fx.filterMap handedBy = []) :
    (c.retry fd).1.held ++ (fx ++ (c.retry fd).2).filterMap closedBy ++
        (fx ++ (c.retry fd).2).filterMap handedBy = [fd] ∧ (c.retry fd).1.Busy := by
  obtain ⟨c', hstate, -, hr | ⟨delay, hr⟩⟩ := c.retry_eq fd
  · have hne : c'.state ≠ .kconnecting := by simp [hstate]
    rw [hr]
    exact ⟨by simp [held_of_ne hne, hc, hh, closedBy, handedBy], busy_of_ne hne⟩
  · have hne : c'.state ≠ .kconnecting := by simp [hstate]
    rw [hr]
    exact ⟨by simp [held_of_ne hne, hc, hh, closedBy, handedBy], busy_of_ne hne⟩

theorem passesOn_connectTo (hne : c.state ≠ .kconnecting) (h : c.connectTo fd errno = .ok r) :
    c.PassesOn [fd] r := by
  have hheld := held_of_ne hne
  rcases c.connectTo_eq fd errno with ⟨-, heq⟩ | heq | heq
  · rw [heq] at h
    obtain ⟨hnone, hr⟩ := check_bind_eq_ok h
    cases hr
    constructor
    · simp [held, setState, Channel.new, Channel.enableWriting, Channel.update, closedBy, handedBy,
        hne]
    · exact fun _ => ⟨_, rfl, rfl⟩
  · cases heq.symm.trans h
    obtain ⟨hsockets, hbusy⟩ := c.retry_closes fd [] rfl rfl
    refine ⟨?_, hbusy⟩
    rw [hheld]
    exact .of_eq hsockets
  · cases heq.symm.trans h
    constructor
    · simp [hheld, closedBy, handedBy]
    · exact busy_of_ne hne

theorem passesOn_startInLoop (h : c.startInLoop fd errno = .ok r) :
    c.PassesOn (if c.connect then [fd] else []) r := by
  unfold startInLoop at h
  obtain ⟨hstate, h⟩ := check_bind_eq_ok h
  have hne : c.state ≠ .kconnecting := by simp [hstate]
  split at h
  · next hc =>
    rw [if_pos hc]
    exact passesOn_connectTo hne h
  · next hc =>
    cases h
    rw [if_neg hc]
    exact ⟨by simp, busy_of_ne hne⟩

theorem passesOn_giveUp {ch : Channel} {state : ConnectorState} (hs : c.state = .kconnecting)
    (hch : c.channel = some ch) :
    c.PassesOn [] ((({ c with
        state := state, channel := some { ch.disableAll with addedToLoop := false } } :
          Connector).retry ch.fd).1,
      [.removeChannel ch.fd, .queueInLoop .resetChannel] ++ (({ c with
        state := state, channel := some { ch.disableAll with addedToLoop := false } } :
          Connector).retry ch.fd).2) := by
  have hheld : c.held = [ch.fd] := by simp [held, hs, hch]
  obtain ⟨hsockets, hbusy⟩ := ({ c with
    state := state, channel := some { ch.disableAll with addedToLoop := false } } :
      Connector).retry_closes ch.fd [.removeChannel ch.fd, .queueInLoop .resetChannel] rfl rfl
  refine ⟨?_, hbusy⟩
  rw [hheld]
  exact .of_eq hsockets

theorem passesOn_nothing (h : c.Busy) : c.PassesOn [] (c, []) := ⟨by simp, h⟩

theorem passesOn_stopInLoop (hb : c.Busy) (h : c.stopInLoop = .ok r) : c.PassesOn [] r := by
  unfold stopInLoop at h
  split at h
  · next hs =>
    obtain ⟨ch, hch, -⟩ := hb hs
    have hch' : (c.setState .kdisconnected).channel = some ch := hch
    dsimp only at h
    rw [removeAndResetChannel_eq hch'] at h
    cases h
    exact passesOn_giveUp hs hch
  · cases h
    exact passesOn_nothing hb

theorem passesOn_handleError (hb : c.Busy) (h : c.handleError = .ok r) : c.PassesOn [] r := by
  unfold handleError at h
  split at h
  · next hs =>
    obtain ⟨ch, hch, -⟩ := hb hs
    rw [removeAndResetChannel_eq hch] at h
    cases h
    exact passesOn_giveUp hs hch
  · cases h
    exact passesOn_nothing hb

theorem passesOn_handleWrite {err : ℕ} {selfConnect : Bool} (hb : c.Busy)
    (h : c.handleWrite err selfConnect = .ok r) : c.PassesOn [] r := by
  by_cases hs : c.state = .kconnecting
  · obtain ⟨ch, hch, -⟩ := hb hs
    by_cases herr : err ≠ 0 ∨ selfConnect = true
    · rw [handleWrite_failed hs hch herr] at h
      cases h
      exact passesOn_giveUp hs hch
    · rw [handleWrite_connected hs hch herr] at h
      cases h
      have hheld : c.held = [ch.fd] := by simp [held, hs, hch]
      refine ⟨?_, busy_of_ne (by simp)⟩
      rw [hheld]
      by_cases hc : c.connect = true
      · rw [if_pos hc]
        exact .of_eq rfl
      · rw [if_neg hc]
        exact .of_eq rfl
  · unfold handleWrite at h
    rw [if_neg hs] at h
    cases (check_bind_eq_ok h).2
    exact passesOn_nothing hb

/-- `ResetChannel` stops at the assertion of the destructor rather than free the channel of an
attempt. -/
theorem resetChannel_keeps (hb : c.Busy) (h : c.resetChannel = .ok c') :
    c'.held = c.held ∧ c'.Busy := by
  obtain ⟨hremoved, heq⟩ := check_bind_eq_ok h
  cases heq
  have hne : c.state ≠ .kconnecting := by
    intro hs
    obtain ⟨ch, hch, hadded⟩ := hb hs
    rw [hremoved ch hch] at hadded
    cases hadded
  exact ⟨by simp [held, hne], busy_of_ne hne⟩

end Connector

namespace ConnectorRun

variable {s s' : ConnectorRun} {r : Connector × List ConnectorEffect}

/-- Every socket is held by the connector, closed or handed over, and none is so twice. -/
structure Inv (s : ConnectorRun) : Prop where
  sockets : (s.connector.held ++ s.closed ++ s.handed).Perm (List.range s.nextSockfd)
  busy : s.connector.Busy

theorem foldl_perform (fx : List ConnectorEffect) : ∀ s : ConnectorRun,
    (fx.foldl perform s).connector = s.connector ∧ (fx.foldl perform s).nextSockfd = s.nextSockfd ∧
      (fx.foldl perform s).closed = s.closed ++ fx.filterMap Connector.closedBy ∧
      (fx.foldl perform s).handed = s.handed ++ fx.filterMap Connector.handedBy := by
  induction fx with
  | nil =>
    intro s
    simp
  | cons x fx ih =>
    intro s
    obtain ⟨hc, hn, hclosed, hhanded⟩ := ih (s.perform x)
    rw [List.foldl_cons, hc, hn, hclosed, hhanded]
    cases x <;> simp [perform, List.filterMap_cons, Connector.closedBy, Connector.handedBy]

theorem after_inv (created : List ℕ)
    (h : (s.connector.held ++ s.closed ++ s.handed ++ created).Perm (List.range s.nextSockfd))
    (hr : s.connector.PassesOn created r) : (s.after r).Inv := by
  obtain ⟨hc, hn, hclosed, hhanded⟩ := foldl_perform r.2 { s with connector := r.1 }
  constructor
  · unfold after
    rw [hc, hn, hclosed, hhanded]
    rw [List.perm_iff_count] at h ⊢
    intro fd
    have hcount := hr.sockets.count_eq fd
    have hfd := h fd
    simp only [List.count_append] at hcount hfd ⊢
    omega
  · unfold after
    rw [hc]
    exact hr.busy

theorem after_inv_of_inv (h : s.Inv) (hr : s.connector.PassesOn [] r) : (s.after r).Inv := by
  refine after_inv [] ?_ hr
  rw [List.append_nil]
  exact h.sockets

theorem inv_of_connector_eq (h : s.Inv) (hheld : s'.connector.held = s.connector.held)
    (hb : s'.connector.Busy) (hclosed : s'.closed = s.closed) (hhanded : s'.handed = s.handed)
    (hnext : s'.nextSockfd = s.nextSockfd) : s'.Inv := by
  constructor
  · rw [hheld, hclosed, hhanded, hnext]
    exact h.sockets
  · exact hb

theorem startInLoop_inv {errno : ConnectErrno} (h : s.Inv) (hs : s.startInLoop errno = .ok s') :
    s'.Inv := by
  obtain ⟨r, hr, heq⟩ := bind_eq_ok hs
  cases heq
  refine after_inv _ ?_ (Connector.passesOn_startInLoop hr)
  dsimp only
  split
  · rw [List.range_succ]
    exact h.sockets.append_right [s.nextSockfd]
  · rw [List.append_nil]
    exact h.sockets

theorem restart_inv {errno : ConnectErrno} (h : s.Inv) (hstate : s.connector.state = .kconnected)
    (hs : s.restart errno = .ok s') : s'.Inv := by
  obtain ⟨r, hr, heq⟩ := bind_eq_ok hs
  cases heq
  have hne : s.connector.state ≠ .kconnecting := by simp [hstate]
  have hpass := Connector.passesOn_startInLoop hr
  rw [if_pos rfl] at hpass
  refine after_inv [s.nextSockfd] ?_ ⟨?_, hpass.busy⟩
  · dsimp only
    rw [List.range_succ]
    exact h.sockets.append_right [s.nextSockfd]
  · rw [Connector.held_of_ne hne]
    exact hpass.sockets

theorem callback_inv {err : ℕ} {selfConnect : Bool} {x : ChannelCallback} (h : s.Inv)
    (hs : s.callback err selfConnect x = .ok s') : s'.Inv := by
  cases x with
  | write =>
    obtain ⟨r, hr, heq⟩ := bind_eq_ok hs
    cases heq
    exact after_inv_of_inv h (Connector.passesOn_handleWrite h.busy hr)
  | error =>
    obtain ⟨r, hr, heq⟩ := bind_eq_ok hs
    cases heq
    exact after_inv_of_inv h (Connector.passesOn_handleError h.busy hr)
  | read | close =>
    cases hs
    exact h

theorem runFunctor_inv {errno : ConnectErrno} {f : ConnectorFunctor} (h : s.Inv)
    (hs : s.runFunctor errno f = .ok s') : s'.Inv := by
  cases f with
  | startInLoop => exact startInLoop_inv h hs
  | stopInLoop =>
    obtain ⟨r, hr, heq⟩ := bind_eq_ok hs
    cases heq
    exact after_inv_of_inv h (Connector.passesOn_stopInLoop h.busy hr)
  | resetChannel =>
    obtain ⟨c, hc, heq⟩ := bind_eq_ok hs
    cases heq
    obtain ⟨hheld, hb⟩ := Connector.resetChannel_keeps h.busy hc
    exact inv_of_connector_eq h hheld hb rfl rfl rfl

theorem step_inv (h : s.Inv) {x : ConnectorLabel} (hs : s.step x = .ok s') : s'.Inv := by
  -- `connect_` plays no part in who holds a socket
  have hconnect : ∀ b, { s with connector := { s.connector with connect := b } }.Inv := fun _ =>
    inv_of_connector_eq h rfl h.busy rfl rfl rfl
  cases x with
  | start inLoopThread errno =>
    cases inLoopThread with
    | false =>
      cases hs
      exact inv_of_connector_eq h rfl h.busy rfl rfl rfl
    | true => exact startInLoop_inv (hconnect true) hs
  | stop =>
    cases hs
    exact inv_of_connector_eq h rfl h.busy rfl rfl rfl
  | restart errno =>
    obtain ⟨hstate, hs⟩ | rfl := ite_eq_ok hs
    · exact restart_inv h hstate hs
    · exact h
  | event revents =>
    obtain ⟨-, hs⟩ | rfl := ite_eq_ok hs
    · cases hs
      exact inv_of_connector_eq h rfl h.busy rfl rfl rfl
    · exact h
  | callback err selfConnect =>
    simp only [step] at hs
    split at hs
    · next rest _ =>
      exact callback_inv (s := { s with active := rest }) ⟨h.sockets, h.busy⟩ hs
    · cases hs
      exact h
  | expire errno =>
    obtain ⟨-, hs⟩ | rfl := ite_eq_ok hs
    · exact startInLoop_inv (s := { s with timers := s.timers - 1 }) ⟨h.sockets, h.busy⟩ hs
    · exact h
  | runFunctor errno =>
    simp only [step] at hs
    split at hs
    · next rest _ _ =>
      exact runFunctor_inv (s := { s with functors := rest }) ⟨h.sockets, h.busy⟩ hs
    · cases hs
      exact h

theorem inv_new : new.Inv := by
  constructor
  · simp [new, Connector.held, Connector.new]
  · exact Connector.busy_of_ne (by simp [new, Connector.new])

def Connecting (s : ConnectorRun) (fd : ℕ) : Prop :=
  s.connector.state = .kconnecting ∧ ∃ ch, s.connector.channel = some ch ∧ ch.fd = fd

theorem connecting_iff {fd : ℕ} : s.Connecting fd ↔ fd ∈ s.connector.held := by
  unfold Connecting Connector.held
  by_cases hs : s.connector.state = .kconnecting
  · simp [hs]
  · simp [hs]

/-- Every socket that has been created is accounted for in one way, and once. -/
theorem Inv.exactly_one (h : s.Inv) {fd : ℕ} (hfd : fd < s.nextSockfd) :
    (s.Connecting fd ∧ s.closed.count fd = 0 ∧ s.handed.count fd = 0) ∨
      (¬ s.Connecting fd ∧ s.closed.count fd = 1 ∧ s.handed.count fd = 0) ∨
      (¬ s.Connecting fd ∧ s.closed.count fd = 0 ∧ s.handed.count fd = 1) := by
  have hone : (List.range s.nextSockfd).count fd = 1 := by rw [List.count_range, if_pos hfd]
  have hcount := h.sockets.count_eq fd
  rw [hone, List.count_append, List.count_append] at hcount
  rw [connecting_iff, ← List.count_pos_iff]
  omega

end ConnectorRun

/-- In every run of a connector, every socket that `Connect` has created is the socket of the
attempt in progress, has been closed once, or has been given to `new_connection_callback_` once and
not closed. -/
theorem connector_owns_sockets_once {labels : List ConnectorLabel} {s : ConnectorRun} {fd : ℕ}
    (hrun : run ConnectorRun.step .new labels = .ok s) (hfd : fd < s.nextSockfd) :
    (s.Connecting fd ∧ s.closed.count fd = 0 ∧ s.handed.count fd = 0) ∨
      (¬ s.Connecting fd ∧ s.closed.count fd = 1 ∧ s.handed.count fd = 0) ∨
      (¬ s.Connecting fd ∧ s.closed.count fd = 0 ∧ s.handed.count fd = 1) := by
  have hinv : s.Inv := reached_invariant (C := fun _ _ => True)
    (fun _ _ _ h _ hs => ConnectorRun.step_inv h hs) ConnectorRun.inv_new
    (along_of_forall (fun _ _ => trivial) _ _) hrun
  exact hinv.exactly_one hfd

/-- The first attempt is refused, the second ends with an error and a write event that come
together, the third is given to `new_connection_callback_`. -/
theorem connector_owns_sockets_once_third_attempt :
    ∃ s, run ConnectorRun.step .new [.start true .econnrefused, .expire .einprogress, .event 12,
        .callback 111 false, .callback 111 false, .runFunctor .none, .expire .einprogress, .event 4,
        .callback 0 false] = .ok s ∧ s.closed = [0, 1] ∧ s.handed = [2] ∧
      ((s.Connecting 2 ∧ s.closed.count 2 = 0 ∧ s.handed.count 2 = 0) ∨
        (¬ s.Connecting 2 ∧ s.closed.count 2 = 1 ∧ s.handed.count 2 = 0) ∨
        (¬ s.Connecting 2 ∧ s.closed.count 2 = 0 ∧ s.handed.count 2 = 1)) := by
  have hrun : run ConnectorRun.step .new [.start true .econnrefused, .expire .einprogress,
      .event 12, .callback 111 false, .callback 111 false, .runFunctor .none, .expire .einprogress,
      .event 4, .callback 0 false] =
      .ok { connector := ⟨true, .kconnected, some ⟨2, 0, false, false⟩, 2000⟩,
            functors := [.resetChannel], timers := 0, active := [], nextSockfd := 3,
            closed := [0, 1], handed := [2] } := by decide +kernel
  exact ⟨_, hrun, rfl, rfl, connector_owns_sockets_once hrun (by decide)⟩

end Dwater
