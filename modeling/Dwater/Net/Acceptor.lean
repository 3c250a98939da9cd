import Mathlib.Data.List.Perm.Basic
import Dwater.Lib.Descriptors
import Dwater.Net.Channel

/-! # The acceptor and its spare descriptor

An acceptor keeps a descriptor of `/dev/null` in reserve. When `accept` finds no free number,
`HandleRead` gives the reserve up, accepts one connection in its place, closes it and takes the
reserve back. Between these system calls other threads open and close descriptors of their own.
Whether there was no number `HandleRead` asks `errno` behind a log line, whose output may have
set it again. A connection that arrives is handed over, turned away or aborted once, the
acceptor closes only what it holds, and the reserve is lost only to somebody who takes the last
free number meanwhile.
-/

set_option autoImplicit false
namespace Dwater

open Fallible

/-- The errors of `::accept4` that `socket::Accept` tells apart. -/
inductive AcceptErrno
  | eagain | econnaborted | eintr | eproto | emfile
  | ebadf | efault | einval | enfile | enobufs | enomem | enotsock | eopnotsupp
  | other (errno : ℕ)
  deriving DecidableEq, Repr

def AcceptErrno.fatal : AcceptErrno → Bool
  | .eagain | .econnaborted | .eintr | .eproto | .emfile => false
  | _ => true

/-- Who is to close a descriptor. -/
inductive Holder (κ : Type)
  | acceptor
  | connection (c : κ)
  | other
  deriving DecidableEq, Repr

/-- `idleFd` is `none` where `idle_fd_` is `-1`. -/
structure Acceptor where
  acceptSocket : ℕ
  acceptChannel : Channel
  newConnectionCallback : Bool
  listening : Bool
  idleFd : Option ℕ
  deriving DecidableEq, Repr

/-- Where the loop's thread is in `HandleRead`. -/
inductive AcceptorPhase (κ : Type)
  | outside

  /-- About to close `idle_fd_`, after `EMFILE`. -/
  | closingIdle

  | accepting

  /-- About to close `idle_fd_` again, which may be a connection now. -/
  | closingAccepted (c : Option κ)

  | opening

  | destroyed
  deriving DecidableEq, Repr

structure AcceptorRun (κ : Type) where
  table : DescriptorTable (Holder κ)
  acceptor : Acceptor
  phase : AcceptorPhase κ

  /-- the connections that the kernel has completed, and where they have gone -/
  arrived : List κ

  pending : List κ

  /-- those that `accept` has returned, in order -/
  taken : List κ

  aborted : List κ
  delivered : List (κ × ℕ)
  turnedAway : List κ

  /-- how often the reserve has been out of reach while it was given up -/
  disturbed : ℕ

/-- A step of the peers, of the acceptor or of other code in the process; the kernel may answer with
a failure, and `logged` is the `errno` that logging it leaves, if it sets one. -/
inductive AcceptorLabel (κ : Type)
  | arrive (c : κ)
  | abort (i : ℕ)
  | setNewConnectionCallback
  | listen
  | handleRead (failure logged : Option AcceptErrno)
  | proceed (failure : Option AcceptErrno)
  | destroy
  | openOther
  | closeOther (fd : ℕ)

namespace AcceptorRun

variable {κ : Type}

/-- The constructor, whose socket and whose reserve need a number each. -/
def new (table : DescriptorTable (Holder κ)) : Except Fault (AcceptorRun κ) :=
  match table.allocate .acceptor with
  | none => throw (.fatal .acceptor_cc 22)
  | some (sockfd, table) =>
    match table.allocate .acceptor with
    | none => throw (.assertion .acceptor_cc 26)
    | some (idleFd, table) =>
      return {
        table := table
        acceptor := ⟨sockfd, .new sockfd, false, false, some idleFd⟩
        phase := .outside
        arrived := [], pending := [], taken := [], aborted := [], delivered := []
        turnedAway := [], disturbed := 0 }

def setIdle (s : AcceptorRun κ) (idleFd : Option ℕ) : AcceptorRun κ :=
  { s with acceptor := { s.acceptor with idleFd := idleFd } }

/-- `::accept`: an error of the kernel's own, no free number, nobody waiting, or the number of the
first connection. -/
def accept (s : AcceptorRun κ) (failure : Option AcceptErrno) :
    Except AcceptErrno (κ × ℕ × AcceptorRun κ) :=
  match failure, s.table.lowest, s.pending with
  | some e, _, _ => throw e
  | none, none, _ => throw .emfile
  | none, some _, [] => throw .eagain
  | none, some fd, c :: rest =>
    return (c, fd, { s with
      table := s.table.assign fd .acceptor, pending := rest, taken := s.taken ++ [c] })

/-- `HandleRead` up to its first call to `close`. -/
def handleRead (s : AcceptorRun κ) (failure logged : Option AcceptErrno) :
    Except Fault (AcceptorRun κ) :=
  match s.accept failure with
  | .ok (c, connfd, s) =>
    if s.acceptor.newConnectionCallback then
      return { s with
        table := s.table.assign connfd (.connection c)
        delivered := s.delivered ++ [(c, connfd)] }
    else
      return { s with table := s.table.close connfd, turnedAway := s.turnedAway ++ [c] }
  | .error e => do
    check (e.fatal = false) (.fatal .acceptor_cc 49)
    -- `errno` is tested behind the log line
    return { s with phase := if logged.getD e = .emfile then .closingIdle else .outside }

/-- The next system call of `HandleRead` after `EMFILE`. -/
def proceed (s : AcceptorRun κ) (failure : Option AcceptErrno) : AcceptorRun κ :=
  match s.phase with
  | .closingIdle =>
    { s with table := s.table.close? s.acceptor.idleFd, phase := .accepting }
  | .accepting =>
    match s.accept failure with
    | .ok (c, connfd, s) => { s.setIdle (some connfd) with phase := .closingAccepted (some c) }
    | .error _ => { s.setIdle none with phase := .closingAccepted none }
  | .closingAccepted c =>
    { s with
      table := s.table.close? s.acceptor.idleFd
      turnedAway := s.turnedAway ++ c.toList
      phase := .opening }
  | .opening =>
    match failure, s.table.allocate .acceptor with
    | none, some (fd, table) => { s.setIdle (some fd) with table := table, phase := .outside }
    | none, none => { s.setIdle none with phase := .outside }
    | some _, _ => { s.setIdle none with phase := .outside, disturbed := s.disturbed + 1 }
  | .outside | .destroyed => s

/-- `~Acceptor`, and with it the socket and the connections that nobody has accepted. -/
def destroy (s : AcceptorRun κ) : Except Fault (AcceptorRun κ) := do
  let channel ← s.acceptor.acceptChannel.disableAll.remove
  return { s with
    table := (s.table.close? s.acceptor.idleFd).close s.acceptor.acceptSocket
    acceptor := { s.acceptor with acceptChannel := channel }
    phase := .destroyed
    aborted := s.aborted ++ s.pending
    pending := [] }

def held (s : AcceptorRun κ) : Option ℕ :=
  match s.phase with
  | .accepting | .opening | .destroyed => none
  | .outside | .closingIdle | .closingAccepted _ => s.acceptor.idleFd

def openOther (s : AcceptorRun κ) : AcceptorRun κ :=
  match s.table.allocate .other with
  | none => s
  | some (_, table) =>
    { s with
      table := table
      disturbed :=
        if s.held = none ∧ table.lowest = none then s.disturbed + 1 else s.disturbed }

def closeOther (s : AcceptorRun κ) (fd : ℕ) : AcceptorRun κ :=
  match s.table.owner fd with
  | none | some .acceptor => s
  | some (.connection _) | some .other => { s with table := s.table.close fd }

def step [DecidableEq κ] (s : AcceptorRun κ) : AcceptorLabel κ → Except Fault (AcceptorRun κ)
  | .arrive c =>
    if s.acceptor.listening = true ∧ s.phase ≠ .destroyed then
      return { s with arrived := s.arrived ++ [c], pending := s.pending ++ [c] }
    else return s
  | .abort i =>
    return { s with aborted := s.aborted ++ s.pending[i]?.toList, pending := s.pending.eraseIdx i }
  | .setNewConnectionCallback =>
    return { s with acceptor := { s.acceptor with newConnectionCallback := true } }
  | .listen =>
    if s.phase = .outside then
      return { s with acceptor := { s.acceptor with
        listening := true, acceptChannel := s.acceptor.acceptChannel.enableReading } }
    else return s
  | .handleRead failure logged =>
    if s.phase = .outside ∧ s.acceptor.acceptChannel.isReading = true then
      s.handleRead failure logged
    else return s
  | .proceed failure => return s.proceed failure
  | .destroy => if s.phase = .outside then s.destroy else return s
  | .openOther => return s.openOther
  | .closeOther fd => return s.closeOther fd

/-- The kernel does not fail in a way that `socket::Accept` takes for fatal. -/
def Expected : AcceptorLabel κ → Prop
  | .handleRead (some e) _ => e.fatal = false
  | _ => True

/-- The connection between its acceptance in place of the reserve and its close. -/
def inFlight (s : AcceptorRun κ) : List κ :=
  match s.phase with
  | .closingAccepted c => c.toList
  | _ => []

/-- As long as nobody has taken the last free number meanwhile, the reserve is held, or there is a
number for it. -/
def Reserved (s : AcceptorRun κ) : Prop :=
  match s.phase with
  | .outside | .closingIdle => s.held ≠ none
  | .accepting | .closingAccepted _ | .opening => s.held ≠ none ∨ s.table.lowest ≠ none
  | .destroyed => True

structure Inv (s : AcceptorRun κ) : Prop where
  owned : ∀ fd, s.table.owner fd = some .acceptor ↔
    s.phase ≠ .destroyed ∧ (fd = s.acceptor.acceptSocket ∨ s.held = some fd)
  apart : s.held ≠ some s.acceptor.acceptSocket
  bounded : ∀ fd, s.held = some fd → fd < s.table.limit
  reserved : s.disturbed = 0 → s.Reserved
  arrived : s.arrived.Perm (s.taken ++ s.pending ++ s.aborted)
  ordered : (s.taken ++ s.pending).Sublist s.arrived
  taken : s.taken.Perm (s.delivered.map Prod.fst ++ (s.turnedAway ++ s.inFlight))
  delivered : (s.delivered.map Prod.fst).Sublist s.taken
  turnedAway : (s.turnedAway ++ s.inFlight).Sublist s.taken

variable {s t : AcceptorRun κ} {c : κ} {fd : ℕ}

theorem reserved_outside (hphase : s.phase = .outside) :
    s.Reserved ↔ s.acceptor.idleFd ≠ none := by
  simp [Reserved, held, hphase]

theorem new_inv {table : DescriptorTable (Holder κ)}
    (htable : ∀ fd, table.owner fd ≠ some .acceptor) (h : new table = .ok s) : s.Inv := by
  unfold new at h
  split at h
  · cases h
  · next sockfd table₁ h₁ =>
    split at h
    · cases h
    · next idleFd table₂ h₂ =>
      cases h
      obtain ⟨hlow₁, rfl⟩ := DescriptorTable.allocate_eq_some h₁
      obtain ⟨hlow₂, rfl⟩ := DescriptorTable.allocate_eq_some h₂
      have hfree := DescriptorTable.owner_of_lowest hlow₂
      have hlt : idleFd < (table.assign sockfd .acceptor).limit :=
        DescriptorTable.lt_of_lowest hlow₂
      have hne : idleFd ≠ sockfd := by
        rintro rfl
        simp at hfree
      refine ⟨fun fd => ?_, ?_, ?_, fun _ => ?_, ?_, ?_, ?_, ?_, ?_⟩
      · by_cases hidle : fd = idleFd
        · simp [hidle, held]
        · rw [DescriptorTable.owner_assign_of_ne hidle]
          by_cases hsock : fd = sockfd
          · simp [hsock]
          · rw [DescriptorTable.owner_assign_of_ne hsock]
            simp [htable fd, hsock, held, Ne.symm hidle]
      · simpa [held] using hne
      · intro fd hfd
        cases hfd
        exact hlt
      · simp [Reserved, held]
      · simp
      · simp
      · simp [inFlight]
      · simp
      · simp [inFlight]

theorem Reserved.others (hr : s.Reserved) {table : DescriptorTable (Holder κ)} {n : ℕ}
    (hlow : s.held = none → s.table.lowest ≠ none → table.lowest ≠ none) :
    Reserved { s with table := table, disturbed := n } := by
  have hmove : s.held ≠ none ∨ s.table.lowest ≠ none → s.held ≠ none ∨ table.lowest ≠ none := by
    rintro (hheld | hfree)
    · exact .inl hheld
    · by_cases hheld : s.held = none
      · exact .inr (hlow hheld hfree)
      · exact .inl hheld
  cases hphase : s.phase with
  | outside | closingIdle =>
    simp only [Reserved, held, hphase] at hr ⊢
    exact hr
  | accepting | closingAccepted _ | opening =>
    simp only [Reserved, held, hphase] at hr hmove ⊢
    exact hmove hr
  | destroyed => simp only [Reserved]

theorem Inv.others (h : s.Inv) {table : DescriptorTable (Holder κ)} {n : ℕ}
    (hother : ∀ k, k ≠ fd → table.owner k = s.table.owner k)
    (hbefore : s.table.owner fd ≠ some .acceptor) (hafter : table.owner fd ≠ some .acceptor)
    (hlimit : table.limit = s.table.limit)
    (hreserved : n = 0 → Reserved { s with table := table, disturbed := n }) :
    Inv { s with table := table, disturbed := n } := by
  refine ⟨fun k => ?_, h.apart, fun k hk => ?_, hreserved, h.arrived, h.ordered, h.taken,
    h.delivered, h.turnedAway⟩
  · by_cases hk : k = fd
    · rw [hk]
      exact ⟨fun ha => absurd ha hafter, fun ha => absurd ((h.owned fd).mpr ha) hbefore⟩
    · have howned := h.owned k
      rw [← hother k hk] at howned
      exact howned
  · exact lt_of_lt_of_eq (h.bounded k hk) hlimit.symm

theorem taken_pending {rest : List κ} (hpending : s.pending = c :: rest) :
    s.taken ++ s.pending = s.taken ++ [c] ++ rest := by
  simp [hpending]

theorem Inv.deliver (h : s.Inv) {rest : List κ} (hpending : s.pending = c :: rest) :
    Inv { s with
      pending := rest
      taken := s.taken ++ [c]
      delivered := s.delivered ++ [(c, fd)] } := by
  have hlist := taken_pending hpending
  have hmap : (s.delivered ++ [(c, fd)]).map Prod.fst = s.delivered.map Prod.fst ++ [c] := by simp
  refine ⟨h.owned, h.apart, h.bounded, h.reserved, hlist ▸ h.arrived, hlist ▸ h.ordered, ?_, ?_, ?_⟩
  · have hcomm : (s.turnedAway ++ s.inFlight ++ [c]).Perm ([c] ++ (s.turnedAway ++ s.inFlight)) :=
      List.perm_append_comm
    have htaken := h.taken.append_right [c]
    rw [List.append_assoc] at htaken
    rw [hmap, List.append_assoc]
    exact htaken.trans (hcomm.append_left _)
  · rw [hmap]
    exact h.delivered.append_right [c]
  · exact h.turnedAway.trans (List.sublist_append_left _ _)

theorem Inv.owned_close (h : s.Inv) (hphase : s.phase ≠ .destroyed) (fd : ℕ) :
    (s.table.close? s.held).owner fd = some .acceptor ↔ fd = s.acceptor.acceptSocket := by
  by_cases hheld : s.held = some fd
  · rw [hheld]
    have hne : fd ≠ s.acceptor.acceptSocket := fun heq => h.apart (heq ▸ hheld)
    simp [DescriptorTable.close?, hne]
  · rw [DescriptorTable.owner_close?_of_ne hheld, h.owned fd]
    simp [hphase, hheld]

theorem Inv.owned_assign (h : s.Inv) (hphase : s.phase ≠ .destroyed) (hheld : s.held = none)
    (k : ℕ) : (s.table.assign fd .acceptor).owner k = some .acceptor ↔
      k = s.acceptor.acceptSocket ∨ some fd = some k := by
  by_cases hk : k = fd
  · simp [hk]
  · rw [DescriptorTable.owner_assign_of_ne hk, h.owned k]
    simp [hphase, hheld, Ne.symm hk]

theorem Inv.ne_acceptSocket (h : s.Inv) (hphase : s.phase ≠ .destroyed)
    (hfree : s.table.owner fd = none) : fd ≠ s.acceptor.acceptSocket := by
  rintro rfl
  have howned := (h.owned s.acceptor.acceptSocket).mpr ⟨hphase, .inl rfl⟩
  rw [hfree] at howned
  cases howned

theorem Inv.lowest_close (h : s.Inv) (hr : s.held ≠ none ∨ s.table.lowest ≠ none) :
    (s.table.close? s.held).lowest ≠ none := by
  cases hheld : s.held with
  | none => exact hr.resolve_left (absurd hheld)
  | some fd =>
    exact DescriptorTable.lowest_ne_none (t := s.table.close fd) (h.bounded fd hheld)
      DescriptorTable.owner_close_self

theorem accept_eq_ok {failure : Option AcceptErrno} (h : s.accept failure = .ok (c, fd, t)) :
    s.table.lowest = some fd ∧ ∃ rest, s.pending = c :: rest ∧
      t = { s with
        table := s.table.assign fd .acceptor, pending := rest, taken := s.taken ++ [c] } := by
  unfold accept at h
  split at h
  · cases h
  · cases h
  · cases h
  · next hlow hpending =>
    cases h
    exact ⟨hlow, _, hpending, rfl⟩

theorem Inv.turnAway (h : s.Inv) (hphase : s.phase = .outside) {rest : List κ}
    (hpending : s.pending = c :: rest) :
    Inv { s with
      pending := rest, taken := s.taken ++ [c], turnedAway := s.turnedAway ++ [c] } := by
  have hlist := taken_pending hpending
  have htaken := h.taken
  have hturned := h.turnedAway
  simp only [inFlight, hphase, List.append_nil] at htaken hturned
  refine ⟨h.owned, h.apart, h.bounded, h.reserved, hlist ▸ h.arrived, hlist ▸ h.ordered, ?_,
    h.delivered.trans (List.sublist_append_left _ _), ?_⟩
  · simpa [inFlight, hphase] using htaken.append_right [c]
  · simpa [inFlight, hphase] using hturned.append_right [c]

theorem accept_none_not_fatal {e : AcceptErrno} (h : s.accept none = .error e) :
    e.fatal = false := by
  unfold accept at h
  split at h
  · next heq => cases heq
  · cases h
    rfl
  · cases h
    rfl
  · cases h

theorem Inv.enter (h : s.Inv) (hphase : s.phase = .outside) :
    Inv { s with phase := .closingIdle } := by
  have hheld : held { s with phase := .closingIdle } = s.held := by simp [held, hphase]
  refine ⟨fun fd => ?_, hheld ▸ h.apart, hheld ▸ h.bounded, fun hz => ?_, h.arrived, h.ordered,
    ?_, h.delivered, ?_⟩
  · rw [hheld]
    simpa [hphase] using h.owned fd
  · simpa [Reserved, held] using (reserved_outside hphase).mp (h.reserved hz)
  · simpa [inFlight, hphase] using h.taken
  · simpa [inFlight, hphase] using h.turnedAway

theorem handleRead_inv (h : s.Inv) (hphase : s.phase = .outside)
    {failure : Option AcceptErrno} (logged : Option AcceptErrno)
    (hf : ∀ e, failure = some e → e.fatal = false) :
    Yields (s.handleRead failure logged) Inv := by
  have hres := fun hz => (reserved_outside hphase).mp (h.reserved hz)
  unfold handleRead
  split
  · next c connfd t hok =>
    obtain ⟨hlow, rest, hpending, rfl⟩ := accept_eq_ok hok
    have hfree : s.table.owner connfd ≠ some .acceptor := by
      simp [DescriptorTable.owner_of_lowest hlow]
    split
    · have hmoved : Inv { s with
          table := (s.table.assign connfd .acceptor).assign connfd (.connection c) } := by
        refine h.others (fun k hk => ?_) hfree (by simp) rfl
          fun hz => by simpa [Reserved, held, hphase] using hres hz
        rw [DescriptorTable.owner_assign_of_ne hk, DescriptorTable.owner_assign_of_ne hk]
      exact yields_pure.mpr (hmoved.deliver hpending)
    · have hmoved : Inv { s with table := (s.table.assign connfd .acceptor).close connfd } := by
        refine h.others (fun k hk => ?_) hfree (by simp) rfl
          fun hz => by simpa [Reserved, held, hphase] using hres hz
        rw [DescriptorTable.owner_close_of_ne hk, DescriptorTable.owner_assign_of_ne hk]
      exact yields_pure.mpr (hmoved.turnAway hphase hpending)
  · next e herr =>
    have hfatal : e.fatal = false := by
      cases failure with
      | some e' =>
        cases herr
        exact hf e rfl
      | none => exact accept_none_not_fatal herr
    rw [check_bind_of_true hfatal]
    refine yields_pure.mpr ?_
    split
    · exact h.enter hphase
    · rw [← hphase]
      exact h

theorem Inv.closeIdle (h : s.Inv) (hphase : s.phase = .closingIdle) :
    Inv { s with table := s.table.close? s.acceptor.idleFd, phase := .accepting } := by
  have hheld : s.held = s.acceptor.idleFd := by simp [held, hphase]
  have hclose := h.owned_close (by simp [hphase])
  have hlow := fun hz => h.lowest_close (.inl (by simpa [Reserved, hphase] using h.reserved hz))
  rw [hheld] at hclose hlow
  refine ⟨fun fd => (hclose fd).trans (by simp [held]), by simp [held], by simp [held],
    fun hz => .inr (hlow hz), h.arrived, h.ordered, ?_, h.delivered, ?_⟩
  · simpa [inFlight, hphase] using h.taken
  · simpa [inFlight, hphase] using h.turnedAway

theorem Inv.acceptSpare (h : s.Inv) (hphase : s.phase = .accepting) {rest : List κ}
    (hlow : s.table.lowest = some fd) (hpending : s.pending = c :: rest) :
    Inv { s.setIdle (some fd) with
      table := s.table.assign fd .acceptor
      pending := rest
      taken := s.taken ++ [c]
      phase := .closingAccepted (some c) } := by
  have hheld : s.held = none := by simp [held, hphase]
  have halive : s.phase ≠ .destroyed := by simp [hphase]
  have hlt : fd < s.table.limit := DescriptorTable.lt_of_lowest hlow
  have hlist := taken_pending hpending
  have htaken := h.taken
  have hturned := h.turnedAway
  simp only [inFlight, hphase, List.append_nil] at htaken hturned
  refine ⟨fun k => (h.owned_assign halive hheld k).trans ?_, ?_, ?_, fun _ => .inl ?_,
    hlist ▸ h.arrived, hlist ▸ h.ordered, ?_, h.delivered.trans (List.sublist_append_left _ _), ?_⟩
  · simp [held, setIdle]
  · simpa [held, setIdle] using h.ne_acceptSocket halive (DescriptorTable.owner_of_lowest hlow)
  · intro k hk
    cases hk
    exact hlt
  · simp [held, setIdle]
  · simpa [inFlight, setIdle] using htaken.append_right [c]
  · simpa [inFlight, setIdle] using hturned.append_right [c]

theorem Inv.acceptNone (h : s.Inv) (hphase : s.phase = .accepting) :
    Inv { s.setIdle none with phase := .closingAccepted none } := by
  have hheld : s.held = none := by simp [held, hphase]
  refine ⟨fun k => (h.owned k).trans ?_, by simp [held, setIdle], by simp [held, setIdle],
    fun hz => ?_, h.arrived, h.ordered, ?_, h.delivered, ?_⟩
  · simp [held, setIdle, hphase]
  · simpa [Reserved, held, setIdle, hphase] using h.reserved hz
  · simpa [inFlight, setIdle, hphase] using h.taken
  · simpa [inFlight, setIdle, hphase] using h.turnedAway

theorem Inv.closeAccepted (h : s.Inv) {o : Option κ} (hphase : s.phase = .closingAccepted o) :
    Inv { s with
      table := s.table.close? s.acceptor.idleFd
      turnedAway := s.turnedAway ++ o.toList
      phase := .opening } := by
  have hheld : s.held = s.acceptor.idleFd := by simp [held, hphase]
  have hclose := h.owned_close (by simp [hphase])
  have hlow := fun hz => h.lowest_close (by simpa only [Reserved, hphase] using h.reserved hz)
  rw [hheld] at hclose hlow
  refine ⟨fun fd => (hclose fd).trans (by simp [held]), by simp [held], by simp [held],
    fun hz => .inr (hlow hz), h.arrived, h.ordered, ?_, h.delivered, ?_⟩
  · simpa [inFlight, hphase] using h.taken
  · simpa [inFlight, hphase] using h.turnedAway

theorem Inv.reopen (h : s.Inv) (hphase : s.phase = .opening) (hlow : s.table.lowest = some fd) :
    Inv { s.setIdle (some fd) with table := s.table.assign fd .acceptor, phase := .outside } := by
  have hheld : s.held = none := by simp [held, hphase]
  have halive : s.phase ≠ .destroyed := by simp [hphase]
  have hlt : fd < s.table.limit := DescriptorTable.lt_of_lowest hlow
  refine ⟨fun k => (h.owned_assign halive hheld k).trans ?_, ?_, ?_, fun _ => ?_, h.arrived,
    h.ordered, ?_, h.delivered, ?_⟩
  · simp [held, setIdle]
  · simpa [held, setIdle] using h.ne_acceptSocket halive (DescriptorTable.owner_of_lowest hlow)
  · intro k hk
    cases hk
    exact hlt
  · simp [Reserved, held, setIdle]
  · simpa [inFlight, setIdle, hphase] using h.taken
  · simpa [inFlight, setIdle, hphase] using h.turnedAway

theorem Inv.reopenFails (h : s.Inv) (hphase : s.phase = .opening) {n : ℕ} (hn : n ≠ 0) :
    Inv { s.setIdle none with phase := .outside, disturbed := n } := by
  refine ⟨fun k => (h.owned k).trans ?_, by simp [held, setIdle], by simp [held, setIdle],
    fun hz => absurd hz hn, h.arrived, h.ordered, ?_, h.delivered, ?_⟩
  · simp [held, setIdle, hphase]
  · simpa [inFlight, setIdle, hphase] using h.taken
  · simpa [inFlight, setIdle, hphase] using h.turnedAway

theorem proceed_inv (h : s.Inv) (failure : Option AcceptErrno) : (s.proceed failure).Inv := by
  unfold proceed
  split
  · next hphase => exact h.closeIdle hphase
  · next hphase =>
    split
    · next c connfd t hok =>
      obtain ⟨hlow, rest, hpending, rfl⟩ := accept_eq_ok hok
      exact h.acceptSpare hphase hlow hpending
    · exact h.acceptNone hphase
  · next o hphase => exact h.closeAccepted hphase
  · next hphase =>
    split
    · next fd table halloc =>
      obtain ⟨hlow, rfl⟩ := DescriptorTable.allocate_eq_some halloc
      exact h.reopen hphase hlow
    · next hnone =>
      refine h.reopenFails hphase fun hz => ?_
      have hlow : s.table.lowest ≠ none := by
        simpa [Reserved, held, hphase] using h.reserved hz
      exact hlow (DescriptorTable.allocate_eq_none_iff.mp hnone)
    · exact h.reopenFails hphase (Nat.succ_ne_zero _)
  · exact h
  · exact h

theorem destroy_inv (h : s.Inv) (hphase : s.phase = .outside) : Yields s.destroy Inv := by
  have hremove : s.acceptor.acceptChannel.disableAll.remove = .ok
      { s.acceptor.acceptChannel.disableAll with addedToLoop := false } := by
    rw [Channel.remove, check_bind_of_true (Channel.isNoneEvent_disableAll _)]
    rfl
  have hheld : s.held = s.acceptor.idleFd := by simp [held, hphase]
  have hclose := h.owned_close (by simp [hphase])
  rw [hheld] at hclose
  unfold destroy
  rw [hremove]
  refine yields_pure.mpr ⟨fun fd => ?_, by simp [held], by simp [held], fun _ => trivial, ?_, ?_,
    ?_, h.delivered, ?_⟩
  · by_cases hfd : fd = s.acceptor.acceptSocket
    · simp [hfd]
    · rw [DescriptorTable.owner_close_of_ne hfd, hclose fd]
      simp [hfd]
  · have hcomm : (s.pending ++ s.aborted).Perm (s.aborted ++ s.pending) := List.perm_append_comm
    have harrived := h.arrived
    rw [List.append_assoc] at harrived
    simpa using harrived.trans (hcomm.append_left s.taken)
  · simp only [List.append_nil]
    exact (List.sublist_append_left _ _).trans h.ordered
  · simpa [inFlight, hphase] using h.taken
  · simpa [inFlight, hphase] using h.turnedAway

theorem openOther_inv (h : s.Inv) : s.openOther.Inv := by
  unfold openOther
  split
  · exact h
  · next fd table halloc =>
    obtain ⟨hlow, rfl⟩ := DescriptorTable.allocate_eq_some halloc
    refine h.others (fun k hk => DescriptorTable.owner_assign_of_ne hk)
      (by simp [DescriptorTable.owner_of_lowest hlow]) (by simp) rfl fun hz => ?_
    split at hz
    · exact absurd hz (Nat.succ_ne_zero _)
    · next hleft => exact (h.reserved hz).others fun hheld _ hnone => hleft ⟨hheld, hnone⟩

theorem closeOther_inv (h : s.Inv) : (s.closeOther fd).Inv := by
  unfold closeOther
  split
  · exact h
  · exact h
  all_goals
    next howner =>
    refine h.others (fun k hk => DescriptorTable.owner_close_of_ne hk) (by simp [howner])
      (by simp) rfl fun hz => ?_
    exact (h.reserved hz).others fun _ => DescriptorTable.lowest_close_ne_none

theorem perm_eraseIdx (l : List κ) (i : ℕ) : (l.eraseIdx i ++ l[i]?.toList).Perm l := by
  by_cases hi : i < l.length
  · rw [List.getElem?_eq_getElem hi]
    exact List.perm_append_comm.trans (List.getElem_cons_eraseIdx_perm hi)
  · rw [List.getElem?_eq_none (Nat.le_of_not_lt hi),
      List.eraseIdx_of_length_le (Nat.le_of_not_lt hi)]
    simp

theorem step_inv [DecidableEq κ] (s : AcceptorRun κ) (l : AcceptorLabel κ) (h : s.Inv)
    (hl : Expected l) : Yields (s.step l) Inv := by
  cases l with
  | arrive c =>
    simp only [step]
    split
    · refine yields_pure.mpr ⟨h.owned, h.apart, h.bounded, h.reserved, ?_, ?_, h.taken,
        h.delivered, h.turnedAway⟩
      · have hperm := List.perm_iff_count.mp h.arrived
        refine List.perm_iff_count.mpr fun a => ?_
        have ha := hperm a
        simp only [List.count_append] at ha ⊢
        omega
      · rw [← List.append_assoc]
        exact h.ordered.append_right [c]
    · exact yields_pure.mpr h
  | abort i =>
    refine yields_pure.mpr ⟨h.owned, h.apart, h.bounded, h.reserved, ?_, ?_, h.taken,
      h.delivered, h.turnedAway⟩
    · have hperm := List.perm_iff_count.mp h.arrived
      have herase := List.perm_iff_count.mp (perm_eraseIdx s.pending i)
      refine List.perm_iff_count.mpr fun a => ?_
      have ha := hperm a
      have hi := herase a
      simp only [List.count_append] at ha hi ⊢
      omega
    · exact ((List.eraseIdx_sublist s.pending i).append_left _).trans h.ordered
  | setNewConnectionCallback =>
    exact yields_pure.mpr ⟨h.owned, h.apart, h.bounded, h.reserved, h.arrived, h.ordered, h.taken,
      h.delivered, h.turnedAway⟩
  | listen =>
    simp only [step]
    split
    · exact yields_pure.mpr ⟨h.owned, h.apart, h.bounded, h.reserved, h.arrived, h.ordered,
        h.taken, h.delivered, h.turnedAway⟩
    · exact yields_pure.mpr h
  | handleRead failure logged =>
    simp only [step]
    split
    · next hcan =>
      refine handleRead_inv h hcan.1 logged fun e he => ?_
      rw [he] at hl
      exact hl
    · exact yields_pure.mpr h
  | proceed failure => exact yields_pure.mpr (proceed_inv h failure)
  | destroy =>
    simp only [step]
    split
    · next hphase => exact destroy_inv h hphase
    · exact yields_pure.mpr h
  | openOther => exact yields_pure.mpr (openOther_inv h)
  | closeOther fd => exact yields_pure.mpr (closeOther_inv h)

def Own : AcceptorLabel κ → Prop
  | .listen | .handleRead _ _ | .proceed _ | .destroy => True
  | _ => False

/-- Every descriptor that somebody else holds is still in their hands. -/
def Spares (s t : AcceptorRun κ) : Prop :=
  ∀ fd o, o ≠ .acceptor → s.table.owner fd = some o → t.table.owner fd = some o

theorem Inv.close_spares (h : s.Inv) (hphase : s.phase ≠ .destroyed) {o : Holder κ}
    (ho : o ≠ .acceptor) (hfd : s.table.owner fd = some o) :
    (s.table.close? s.held).owner fd = some o := by
  rw [DescriptorTable.owner_close?_of_ne, hfd]
  intro hheld
  have howned := (h.owned fd).mpr ⟨hphase, .inr hheld⟩
  rw [hfd] at howned
  exact ho (Option.some.inj howned)

theorem handleRead_spares {failure logged : Option AcceptErrno}
    (ht : s.handleRead failure logged = .ok t) : s.Spares t := by
  intro fd o _ hfd
  unfold handleRead at ht
  split at ht
  · next c connfd u hok =>
    obtain ⟨hlow, rest, -, rfl⟩ := accept_eq_ok hok
    have hne : fd ≠ connfd := by
      rintro rfl
      rw [DescriptorTable.owner_of_lowest hlow] at hfd
      cases hfd
    split at ht
    · cases ht
      simp only
      rw [DescriptorTable.owner_assign_of_ne hne, DescriptorTable.owner_assign_of_ne hne, hfd]
    · cases ht
      simp only
      rw [DescriptorTable.owner_close_of_ne hne, DescriptorTable.owner_assign_of_ne hne, hfd]
  · obtain ⟨-, ht⟩ := check_bind_eq_ok ht
    cases ht
    exact hfd

theorem Inv.proceed_spares (h : s.Inv) (failure : Option AcceptErrno) :
    s.Spares (s.proceed failure) := by
  intro fd o ho hfd
  unfold proceed
  split
  · next hphase =>
    have hclose := h.close_spares (by simp [hphase]) ho hfd
    simpa only [held, hphase] using hclose
  · split
    · next c connfd u hok =>
      obtain ⟨hlow, rest, -, rfl⟩ := accept_eq_ok hok
      exact DescriptorTable.owner_assign_lowest hlow hfd
    · exact hfd
  · next hphase =>
    have hclose := h.close_spares (by simp [hphase]) ho hfd
    simpa only [held, hphase] using hclose
  · split
    · next k table halloc =>
      obtain ⟨hlow, rfl⟩ := DescriptorTable.allocate_eq_some halloc
      exact DescriptorTable.owner_assign_lowest hlow hfd
    · exact hfd
    · exact hfd
  · exact hfd
  · exact hfd

theorem Inv.destroy_spares (h : s.Inv) (hphase : s.phase = .outside) (ht : s.destroy = .ok t) :
    s.Spares t := by
  intro fd o ho hfd
  obtain ⟨channel, -, ht⟩ := bind_eq_ok ht
  cases ht
  have hclose := h.close_spares (by simp [hphase]) ho hfd
  simp only [held, hphase] at hclose
  have hne : fd ≠ s.acceptor.acceptSocket := by
    rintro rfl
    rw [(h.owned _).mpr ⟨by simp [hphase], .inl rfl⟩] at hfd
    exact ho (Option.some.inj hfd).symm
  exact (DescriptorTable.owner_close_of_ne hne).trans hclose

theorem Inv.spares [DecidableEq κ] (h : s.Inv) {l : AcceptorLabel κ} (hl : Own l)
    (ht : s.step l = .ok t) : s.Spares t := by
  cases l with
  | arrive | abort | setNewConnectionCallback | openOther | closeOther => cases hl
  | listen =>
    obtain ⟨-, ht⟩ | rfl := ite_eq_ok ht
    · cases ht
      exact fun fd o _ hfd => hfd
    · exact fun fd o _ hfd => hfd
  | handleRead failure logged =>
    obtain ⟨-, ht⟩ | rfl := ite_eq_ok ht
    · exact handleRead_spares ht
    · exact fun fd o _ hfd => hfd
  | proceed failure =>
    cases ht
    exact h.proceed_spares failure
  | destroy =>
    obtain ⟨hphase, ht⟩ | rfl := ite_eq_ok ht
    · exact h.destroy_spares hphase ht
    · exact fun fd o _ hfd => hfd

/-- `HandleRead` to its end, with nobody in between and no other failure. -/
def handling (logged : Option AcceptErrno) : List (AcceptorLabel κ) :=
  .handleRead none logged :: List.replicate 4 (.proceed none)

theorem run_proceed_outside [DecidableEq κ] (hphase : t.phase = .outside) (n : ℕ) :
    run step t (List.replicate n (.proceed none)) = .ok t := by
  induction n with
  | zero => rfl
  | succ n ih =>
    have hstep : t.step (.proceed none) = .ok t := by
      simp only [step, proceed, hphase]
      rfl
    rw [List.replicate_succ, run_cons_of_ok hstep, ih]

theorem accept_of_free (hlow : s.table.lowest = some fd) {rest : List κ}
    (hpending : s.pending = c :: rest) :
    s.accept none = .ok (c, fd, { s with
      table := s.table.assign fd .acceptor, pending := rest, taken := s.taken ++ [c] }) := by
  simp only [accept, hlow, hpending]
  rfl

/-- With a free number the first connection is taken at once. -/
theorem handleRead_of_free (hlow : s.table.lowest = some fd) {rest : List κ}
    (hpending : s.pending = c :: rest) (logged : Option AcceptErrno) :
    s.handleRead none logged = .ok (if s.acceptor.newConnectionCallback then
        { s with
          table := s.table.assign fd (.connection c)
          pending := rest
          taken := s.taken ++ [c]
          delivered := s.delivered ++ [(c, fd)] }
      else
        { s with
          pending := rest, taken := s.taken ++ [c], turnedAway := s.turnedAway ++ [c] }) := by
  have hclose : (s.table.assign fd .acceptor).close fd = s.table :=
    DescriptorTable.close_assign (DescriptorTable.owner_of_lowest hlow)
  have hassign : (s.table.assign fd .acceptor).assign fd (.connection c) =
      s.table.assign fd (.connection c) := by
    simp [DescriptorTable.assign]
  rw [handleRead, accept_of_free hlow hpending]
  simp only [hclose, hassign]
  split <;> rfl

theorem handleRead_of_full (hfull : s.table.lowest = none) (logged : Option AcceptErrno) :
    s.handleRead none logged = .ok { s with
      phase := if logged.getD .emfile = .emfile then .closingIdle else .outside } := by
  have haccept : s.accept none = .error .emfile := by
    simp only [accept, hfull]
    rfl
  rw [handleRead, haccept]
  rfl

theorem proceed_closingIdle (hphase : s.phase = .closingIdle)
    (hidle : s.acceptor.idleFd = some fd) :
    s.proceed none = { s with table := s.table.close fd, phase := .accepting } := by
  simp only [proceed, hphase, hidle]
  rfl

theorem proceed_accepting (hphase : s.phase = .accepting) (hidle : s.acceptor.idleFd = some fd)
    (hlow : s.table.lowest = some fd) {rest : List κ} (hpending : s.pending = c :: rest) :
    s.proceed none = { s with
      table := s.table.assign fd .acceptor
      pending := rest
      taken := s.taken ++ [c]
      phase := .closingAccepted (some c) } := by
  simp only [proceed, hphase, accept_of_free hlow hpending, setIdle, ← hidle]

theorem proceed_closingAccepted (hphase : s.phase = .closingAccepted (some c))
    (hidle : s.acceptor.idleFd = some fd) :
    s.proceed none = { s with
      table := s.table.close fd, turnedAway := s.turnedAway ++ [c], phase := .opening } := by
  simp only [proceed, hphase, hidle]
  rfl

theorem proceed_opening (hphase : s.phase = .opening) (hidle : s.acceptor.idleFd = some fd)
    (hlow : s.table.lowest = some fd) :
    s.proceed none = { s with table := s.table.assign fd .acceptor, phase := .outside } := by
  have hassign : s.table.allocate .acceptor = some (fd, s.table.assign fd .acceptor) := by
    rw [DescriptorTable.allocate, hlow]
    rfl
  simp only [proceed, hphase, hassign, setIdle, ← hidle]

/-- In a full table the reserve makes room for one connection and is taken back. -/
theorem run_handling_of_full [DecidableEq κ] (hphase : s.phase = .outside)
    {logged : Option AcceptErrno} (hlogged : logged.getD .emfile = .emfile)
    (hreading : s.acceptor.acceptChannel.isReading = true) (hfull : s.table.lowest = none)
    (hidle : s.acceptor.idleFd = some fd) (hlt : fd < s.table.limit)
    (howner : s.table.owner fd = some .acceptor)
    {rest : List κ} (hpending : s.pending = c :: rest) :
    run step s (handling logged) = .ok { s with
      pending := rest, taken := s.taken ++ [c], turnedAway := s.turnedAway ++ [c] } := by
  have hlow := DescriptorTable.lowest_close_of_full hfull hlt
  have hclose : ((s.table.close fd).assign fd .acceptor).close fd = s.table.close fd :=
    DescriptorTable.close_assign DescriptorTable.owner_close_self
  have hassign : (s.table.close fd).assign fd .acceptor = s.table :=
    DescriptorTable.assign_close howner
  have hread : s.step (.handleRead none logged) = _ :=
    (if_pos ⟨hphase, hreading⟩).trans (handleRead_of_full hfull logged)
  rw [if_pos hlogged] at hread
  have h₁ := proceed_closingIdle (s := { s with phase := .closingIdle }) rfl hidle
  have h₂ := proceed_accepting (s := { s with table := s.table.close fd, phase := .accepting })
    rfl hidle hlow hpending
  have h₃ := proceed_closingAccepted (s := { s with
    table := (s.table.close fd).assign fd .acceptor
    pending := rest
    taken := s.taken ++ [c]
    phase := .closingAccepted (some c) }) rfl hidle
  have h₄ := proceed_opening (s := { s with
    table := s.table.close fd
    pending := rest
    taken := s.taken ++ [c]
    turnedAway := s.turnedAway ++ [c]
    phase := .opening }) rfl hidle hlow
  rw [handling, run_cons_of_ok hread]
  simp only [List.replicate, run, step, pure_bind]
  rw [h₁, h₂, h₃, hclose, h₄, hassign, ← hphase]

theorem Inv.drains [DecidableEq κ] (h : s.Inv) (hphase : s.phase = .outside)
    (hreading : s.acceptor.acceptChannel.isReading = true) (hidle : s.acceptor.idleFd ≠ none)
    {logged : Option AcceptErrno} (hlogged : s.table.lowest = none → logged.getD .emfile = .emfile)
    {rest : List κ} (hpending : s.pending = c :: rest) :
    Yields (run step s (handling logged)) fun t => t.phase = .outside ∧ t.pending = rest ∧
      t.acceptor = s.acceptor ∧
        (t.table = s.table ∧ t.turnedAway = s.turnedAway ++ [c] ∨
          ∃ fd, s.table.lowest = some fd ∧ t.table = s.table.assign fd (.connection c) ∧
            t.delivered = s.delivered ++ [(c, fd)]) := by
  cases hlow : s.table.lowest with
  | some fd =>
    have hstep : s.step (.handleRead none logged) = _ :=
      (if_pos ⟨hphase, hreading⟩).trans (handleRead_of_free hlow hpending logged)
    rw [handling, run_cons_of_ok hstep]
    split
    · rw [run_proceed_outside (by exact hphase)]
      exact yields_ok.mpr ⟨hphase, rfl, rfl, .inr ⟨fd, rfl, rfl, rfl⟩⟩
    · rw [run_proceed_outside (by exact hphase)]
      exact yields_ok.mpr ⟨hphase, rfl, rfl, .inl ⟨rfl, rfl⟩⟩
  | none =>
    obtain ⟨fd, hfd⟩ := Option.ne_none_iff_exists'.mp hidle
    have hheld : s.held = some fd := by simp [held, hphase, hfd]
    have howner := (h.owned fd).mpr ⟨by simp [hphase], .inr hheld⟩
    rw [run_handling_of_full hphase (hlogged hlow) hreading hlow hfd (h.bounded fd hheld) howner
      hpending]
    exact yields_ok.mpr ⟨hphase, rfl, rfl, .inl ⟨rfl, rfl⟩⟩

/-- Where the connections and the descriptors are. -/
structure Accounted [DecidableEq κ] (s : AcceptorRun κ) : Prop where
  connections : s.arrived.Perm
    (s.delivered.map Prod.fst ++ s.pending ++ (s.turnedAway ++ (s.aborted ++ s.inFlight)))

  /-- Connections leave the queue in the order of their arrival, and are handed over and turned away
  in that order. -/
  ordered : (s.taken ++ s.pending).Sublist s.arrived

  delivered : (s.delivered.map Prod.fst).Sublist s.taken
  turnedAway : (s.turnedAway ++ s.inFlight).Sublist s.taken
  owned : ∀ fd, s.table.owner fd = some .acceptor ↔
    s.phase ≠ .destroyed ∧ (fd = s.acceptor.acceptSocket ∨ s.held = some fd)

  /-- The acceptor closes and takes nothing that somebody else holds. -/
  spares : ∀ l, Own l → ∀ t, s.step l = .ok t → s.Spares t

  /-- The reserve is there when `HandleRead` is called, -/
  reserve : s.phase = .outside → s.disturbed = 0 → s.acceptor.idleFd ≠ none

  /-- and then the first connection does not stay in the queue, unless the table is full and the log
  line sets another `errno`. -/
  drains : s.phase = .outside → s.acceptor.acceptChannel.isReading = true →
    s.acceptor.idleFd ≠ none → ∀ logged : Option AcceptErrno,
      (s.table.lowest = none → logged.getD .emfile = .emfile) → ∀ c rest, s.pending = c :: rest →
      Yields (run step s (handling logged)) fun t => t.phase = .outside ∧ t.pending = rest ∧
        t.acceptor = s.acceptor ∧
          (t.table = s.table ∧ t.turnedAway = s.turnedAway ++ [c] ∨
            ∃ fd, s.table.lowest = some fd ∧ t.table = s.table.assign fd (.connection c) ∧
              t.delivered = s.delivered ++ [(c, fd)])

theorem Inv.connections (h : s.Inv) : s.arrived.Perm
    (s.delivered.map Prod.fst ++ s.pending ++ (s.turnedAway ++ (s.aborted ++ s.inFlight))) := by
  classical
  have harrived := List.perm_iff_count.mp h.arrived
  have htaken := List.perm_iff_count.mp h.taken
  refine List.perm_iff_count.mpr fun a => ?_
  have ha := harrived a
  have ht := htaken a
  simp only [List.count_append] at ha ht ⊢
  omega

theorem Inv.accounted [DecidableEq κ] (h : s.Inv) : s.Accounted where
  connections := h.connections
  ordered := h.ordered
  delivered := h.delivered
  turnedAway := h.turnedAway
  owned := h.owned
  spares _ hl _ ht := h.spares hl ht
  reserve hphase hz := (reserved_outside hphase).mp (h.reserved hz)
  drains hphase hreading hidle _ hlogged _ _ hpending :=
    h.drains hphase hreading hidle hlogged hpending

/-- Whatever arrives, and whatever other code opens and closes between the system calls of
`HandleRead`: every connection is handed over, turned away, aborted or still waiting, once and in
order, and the acceptor holds its socket and its reserve and closes nothing else. -/
theorem acceptor_accounts [DecidableEq κ] {table : DescriptorTable (Holder κ)}
    (htable : ∀ fd, table.owner fd ≠ some .acceptor) (hnew : new table = .ok s)
    (labels : List (AcceptorLabel κ)) (h : ∀ l ∈ labels, Expected l) :
    Yields (run step s labels) Accounted :=
  (run_invariant step_inv (new_inv htable hnew) (along_of_mem h s)).mono fun _ => Inv.accounted

/-- There is room for one connection; another thread takes the number of the second one while it is
turned away. -/
theorem acceptor_accounts_full :
    ∃ s : AcceptorRun Bool, new ⟨fun _ => none, 3⟩ = .ok s ∧ Yields (run step s
      [.setNewConnectionCallback, .listen, .arrive true, .arrive false, .handleRead none none,
        .handleRead none none, .proceed none, .proceed none, .proceed none, .openOther,
        .proceed none])
      Accounted := by
  have hunused : ∀ fd, (⟨fun _ => none, 3⟩ : DescriptorTable (Holder Bool)).owner fd ≠
      some .acceptor := by simp
  refine ⟨_, rfl, acceptor_accounts hunused rfl _ ?_⟩
  simp [Expected]

end AcceptorRun

end Dwater
