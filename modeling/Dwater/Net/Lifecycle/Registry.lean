import Dwater.Base.Format
import Dwater.Net.Lifecycle.Progress

/-! # The registry of the server

`connections_` is keyed by names, and a connection's name is what `snprintf` leaves of the
server's address and a number in a buffer of 64 bytes. While the server lives, the names are
distinct, `connections_` holds exactly the connections that have been accepted and not yet
removed, and each connection is queued for `ConnectionDestroyed` once, by its removal.
-/

set_option autoImplicit false
namespace Dwater

open Fallible

variable {ι : Type}

def wrapInt (n : ℤ) : ℤ := n.bmod (2 ^ 32)

/-- A server with the names of its connections, `connections_` as the source keys it, and what
has run for its connections. -/
structure NamedServer (ι : Type) where
  server : TcpServer ι
  name : List Char
  ipPort : List Char
  nextConnid : ℤ
  names : ℕ → Option (List Char)
  connections : List Char → Option ℕ
  history : List ServerEvent

namespace NamedServer

def new (base : ι) (writeCompleteCallback : Bool) (name ipPort : List Char) : NamedServer ι :=
  { server := .new base writeCompleteCallback, name := name, ipPort := ipPort, nextConnid := 1,
    names := fun _ => none, connections := fun _ => none, history := [] }

def connName (name ipPort : List Char) (id : ℤ) : List Char :=
  name ++ snprintf 64 ('-' :: ipPort ++ '#' :: formatInt id)

/-- `NewConnection` names connection `c` and puts it into `connections_`. -/
def newConnection (s : NamedServer ι) (c : ℕ) : NamedServer ι :=
  let connName := connName s.name s.ipPort s.nextConnid
  { s with
    nextConnid := wrapInt (s.nextConnid + 1)
    names := Function.update s.names c (some connName)
    connections := Function.update s.connections connName (some c) }

def erase (s : NamedServer ι) (key : List Char) : NamedServer ι × ℕ :=
  ({ s with connections := Function.update s.connections key none },
    if (s.connections key).isSome then 1 else 0)

def removeConenctionInLoop (s : NamedServer ι) (c : ℕ) : Except Fault (NamedServer ι) :=
  match s.names c with
  | some connName => do
    let (s, n) := s.erase connName
    check (n = 1) (.assertion .tcp_server_cc 93)
    return s
  | none => return s

def body (s : NamedServer ι) : ServerEvent → Except Fault (NamedServer ι)
  | .newConnection c => return s.newConnection c
  | .removeConenctionInLoop c => s.removeConenctionInLoop c
  | .connectionEstablished _ | .handleClose _ | .connectionDestroyed _ => return s

def perform (s : NamedServer ι) (x : ServerEvent) : Except Fault (NamedServer ι) := do
  let s ← s.body x
  return { s with history := s.history ++ [x] }

def step [DecidableEq ι] (s : NamedServer ι) (x : ServerLabel ι) :
    Except Fault (NamedServer ι) := do
  let server ← s.server.step x
  let s ← run perform s (s.server.events x)
  return { s with server := server }

/-- The server is not destroyed, it accepts fewer than `2 ^ 31` connections, and the kernel takes
at most what it is given. -/
def Serving [DecidableEq ι] (s : NamedServer ι) (x : ServerLabel ι) : Prop :=
  x ≠ .destroy ∧ (∀ c, .newConnection c ∈ s.server.events x → c < 2 ^ 31) ∧
    ∀ c w e, x = .handleWrite c w → s.server.entries c = some e →
      w.Within e.conn.outputBuffer.readableBytes

/-- What the server and its connections promise one another. -/
structure Registry (s : NamedServer ι) : Prop where
  named : ∀ c, (s.names c).isSome = true ↔ .newConnection c ∈ s.history
  distinct : ∀ c d key, s.names c = some key → s.names d = some key → c = d
  holds : ∀ key c, s.connections key = some c ↔ .newConnection c ∈ s.history ∧
    .removeConenctionInLoop c ∉ s.history ∧ s.names c = some key
  queued : ∀ c e, s.server.entries c = some e →
    (s.server.queue e.loop).count (.connectionDestroyed c) +
        s.history.count (.connectionDestroyed c) = s.history.count (.removeConenctionInLoop c) ∧
      s.history.count (.removeConenctionInLoop c) ≤ 1
  loops : ∀ c i, .connectionDestroyed c ∈ s.server.queue i → s.server.LoopOf c i
  after : ∀ c before rest, s.history = before ++ .connectionDestroyed c :: rest →
    .connectionEstablished c ∈ before ∧ .handleClose c ∈ before

section Names

variable {name ipPort : List Char} {c d : ℕ}

/-- Nothing of the text is lost: at most 51 characters of address and 10 digits. -/
theorem connName_eq (hip : ipPort.length ≤ 51) (hc : c < 2 ^ 31) :
    connName name ipPort c = name ++ ('-' :: ipPort ++ '#' :: Nat.toDigits 10 c) := by
  have hdigits : (Nat.toDigits 10 c).length ≤ 10 :=
    (Nat.length_toDigits_le_iff (by decide) (by decide)).mpr (by omega)
  unfold connName snprintf
  rw [formatInt_natCast, List.take_of_length_le]
  simp only [List.cons_append, List.length_cons, List.length_append]
  omega

theorem connName_inj (hip : ipPort.length ≤ 51) (hc : c < 2 ^ 31) (hd : d < 2 ^ 31)
    (h : connName name ipPort c = connName name ipPort d) : c = d := by
  rw [connName_eq hip hc, connName_eq hip hd] at h
  exact toDigits_injective (by simpa using h)

end Names

section Bodies

variable {s s' : NamedServer ι} {c d : ℕ} {x : ServerEvent}

def past (history : List ServerEvent) (c : ℕ) : List ServerEvent :=
  history.filter fun x => x.conn = c

/-- `x` is the next body of its connection, and connections are numbered as they are accepted. -/
structure Next (history : List ServerEvent) (x : ServerEvent) : Prop where
  follows : past history x.conn ++ [x] <+: protocol x.conn
  numbered : ∀ c, x = .newConnection c → c = history.countP ServerEvent.accepts + 1 ∧ c < 2 ^ 31

/-- The registry agrees with the history. -/
structure Agrees (s : NamedServer ι) : Prop where
  short : s.ipPort.length ≤ 51
  counted : s.nextConnid = wrapInt (s.history.countP ServerEvent.accepts + 1)
  small : ∀ c, .newConnection c ∈ s.history → c < 2 ^ 31
  names_eq : ∀ c, s.names c =
    if .newConnection c ∈ s.history then some (connName s.name s.ipPort c) else none
  holds : ∀ key c, s.connections key = some c ↔ .newConnection c ∈ s.history ∧
    .removeConenctionInLoop c ∉ s.history ∧ connName s.name s.ipPort c = key

theorem mem_past {history : List ServerEvent} : x ∈ past history x.conn ↔ x ∈ history := by
  simp [past]

theorem wrapInt_of_lt (h : c < 2 ^ 31) : wrapInt c = c := by
  unfold wrapInt
  rw [Int.bmod_eq_of_le] <;> omega

theorem protocol_nodup (c : ℕ) : (protocol c).Nodup := by simp [protocol]

/-- Before a body of the protocol there is all that comes before it in the protocol. -/
theorem eq_takeWhile_of_append {xs : List ServerEvent} (h : xs ++ [x] <+: protocol c) :
    xs = (protocol c).takeWhile fun y => y ≠ x := by
  obtain ⟨rest, hrest⟩ := h
  have hnodup := protocol_nodup c
  rw [← hrest, List.append_assoc, List.nodup_append] at hnodup
  rw [← hrest, List.append_assoc, List.takeWhile_append_of_pos]
  · simp
  · intro y hy
    simpa using hnodup.2.2 y hy x (by simp)

theorem Next.past_newConnection {history : List ServerEvent}
    (h : Next history (.newConnection c)) : past history c = [] := by
  refine (eq_takeWhile_of_append h.follows).trans ?_
  simp [protocol, ServerEvent.conn]

theorem Next.past_removal {history : List ServerEvent}
    (h : Next history (.removeConenctionInLoop c)) :
    past history c = [.newConnection c, .connectionEstablished c, .handleClose c] := by
  refine (eq_takeWhile_of_append h.follows).trans ?_
  simp [protocol, ServerEvent.conn]

theorem Agrees.newConnection (h : s.Agrees) (hx : Next s.history (.newConnection c)) :
    Agrees { s.newConnection c with history := s.history ++ [.newConnection c] } := by
  obtain ⟨hcount, hlt⟩ := hx.numbered c rfl
  have hid : s.nextConnid = c := by
    rw [h.counted, hcount]
    exact_mod_cast wrapInt_of_lt (hcount ▸ hlt)
  have hnew : ∀ x : ServerEvent, x.conn = c → x ∉ s.history := by
    rintro x rfl hmem
    rw [← mem_past, hx.past_newConnection] at hmem
    cases hmem
  constructor
  · exact h.short
  · have hnext : (s.newConnection c).nextConnid = wrapInt (c + 1) := by rw [← hid]; rfl
    rw [hnext, hcount]
    simp [ServerEvent.accepts]
  · intro d hd
    rcases List.mem_append.mp hd with hd | hd
    · exact h.small d hd
    · cases List.mem_singleton.mp hd
      exact hlt
  · intro d
    simp only [NamedServer.newConnection, hid, Function.update_apply]
    by_cases hd : d = c
    · subst hd
      simp
    · simpa [hd] using h.names_eq d
  · intro key d
    simp only [NamedServer.newConnection, hid, Function.update_apply]
    by_cases hd : d = c
    · subst hd
      have hnone : s.connections key ≠ some d := fun hk => hnew _ rfl ((h.holds key d).mp hk).1
      by_cases hk : key = connName s.name s.ipPort d
      · subst hk
        simp [hnew (.removeConenctionInLoop d) rfl]
      · simp only [hk, if_false, hnone, false_iff]
        exact fun hr => hk hr.2.2.symm
    · by_cases hk : key = connName s.name s.ipPort c
      · subst hk
        simp only [if_true, Option.some.injEq, Ne.symm hd, false_iff]
        rintro ⟨hm, -, heq⟩
        have hold : .newConnection d ∈ s.history := by simpa [hd] using hm
        exact hd (connName_inj h.short (h.small d hold) hlt heq)
      · simpa [hk, hd] using h.holds key d

theorem Agrees.removeConenctionInLoop (h : s.Agrees)
    (hx : Next s.history (.removeConenctionInLoop c)) :
    Yields (s.removeConenctionInLoop c) fun s' =>
      Agrees { s' with history := s'.history ++ [.removeConenctionInLoop c] } := by
  have hold : .newConnection c ∈ s.history := by
    rw [← mem_past]
    exact hx.past_removal ▸ List.mem_cons_self
  have hkept : .removeConenctionInLoop c ∉ s.history := by
    rw [← mem_past]
    show .removeConenctionInLoop c ∉ past s.history c
    rw [hx.past_removal]
    simp
  have hname : s.names c = some (connName s.name s.ipPort c) := by rw [h.names_eq, if_pos hold]
  have hheld : s.connections (connName s.name s.ipPort c) = some c :=
    (h.holds _ c).mpr ⟨hold, hkept, rfl⟩
  unfold NamedServer.removeConenctionInLoop
  simp only [hname, erase, hheld, Option.isSome_some, if_true, check_bind_of_true]
  refine yields_pure.mpr ⟨h.short, ?_, ?_, ?_, ?_⟩
  · simpa [ServerEvent.accepts] using h.counted
  · intro d hd
    exact h.small d (by simpa using hd)
  · intro d
    simpa using h.names_eq d
  · intro key d
    simp only [Function.update_apply]
    by_cases hk : key = connName s.name s.ipPort c
    · subst hk
      simp only [if_true, reduceCtorEq, false_iff]
      rintro ⟨hm, hr, heq⟩
      have hd : d = c :=
        connName_inj h.short (h.small d (by simpa using hm)) (h.small c hold) heq
      subst hd
      simp at hr
    · simp only [hk, if_false]
      rw [h.holds key d]
      have hne : connName s.name s.ipPort d = key → d ≠ c := by
        rintro rfl rfl
        exact hk rfl
      simp only [List.mem_append, List.mem_singleton, reduceCtorEq, or_false,
        ServerEvent.removeConenctionInLoop.injEq]
      tauto

theorem perform_history (hs : s.perform x = .ok s') : s'.history = s.history ++ [x] := by
  obtain ⟨t, ht, hs⟩ := bind_eq_ok hs
  cases hs
  suffices t.history = s.history by rw [this]
  cases x with
  | removeConenctionInLoop c =>
    dsimp only [body, NamedServer.removeConenctionInLoop] at ht
    split at ht
    · obtain ⟨-, ht⟩ := check_bind_eq_ok ht
      cases ht
      rfl
    · cases ht
      rfl
  | _ =>
    cases ht
    rfl

theorem run_perform_history {xs : List ServerEvent} :
    ∀ {s s' : NamedServer ι}, run perform s xs = .ok s' → s'.history = s.history ++ xs := by
  induction xs with
  | nil =>
    intro s s' hs
    cases hs
    simp
  | cons x xs ih =>
    intro s s' hs
    obtain ⟨t, ht, hs⟩ := bind_eq_ok hs
    rw [ih hs, perform_history ht, List.append_assoc, List.singleton_append]

theorem past_append (history xs : List ServerEvent) (c : ℕ) :
    past (history ++ xs) c = past history c ++ past xs c := List.filter_append ..

/-- Bodies that keep to the protocol are each the next one when they run. -/
theorem along_perform {xs : List ServerEvent} : ∀ {s : NamedServer ι},
    (∀ c, past (s.history ++ xs) c <+: protocol c) →
    (∀ before c rest, xs = before ++ .newConnection c :: rest →
      c = (s.history ++ before).countP ServerEvent.accepts + 1 ∧ c < 2 ^ 31) →
    Along perform (fun s x => Next s.history x) s xs := by
  induction xs with
  | nil =>
    intro s _ _
    trivial
  | cons x xs ih =>
    intro s hpast hnum
    refine ⟨⟨?_, ?_⟩, fun t ht => ?_⟩
    · refine List.IsPrefix.trans ?_ (hpast x.conn)
      rw [past_append]
      exact ⟨past xs x.conn, by simp [past]⟩
    · rintro c rfl
      simpa using hnum [] c xs rfl
    · have hhist := perform_history ht
      apply ih
      · intro c
        rw [hhist, List.append_assoc, List.singleton_append]
        exact hpast c
      · rintro before c rest rfl
        rw [hhist, List.append_assoc, List.singleton_append]
        exact hnum (x :: before) c rest rfl

theorem perform_agrees (s : NamedServer ι) (x : ServerEvent) (h : s.Agrees)
    (hx : Next s.history x) : Yields (s.perform x) Agrees := by
  cases x with
  | newConnection c => exact yields_ok.mpr (h.newConnection hx)
  | removeConenctionInLoop c =>
    exact yields_bind (h.removeConenctionInLoop hx) fun t ht => yields_pure.mpr ht
  | connectionEstablished c | handleClose c | connectionDestroyed c =>
    refine yields_ok.mpr ⟨h.short, ?_, ?_, ?_, ?_⟩
    · simpa [ServerEvent.accepts] using h.counted
    · intro d hd
      exact h.small d (by simpa using hd)
    · intro d
      simpa using h.names_eq d
    · intro key d
      simpa using h.holds key d

end Bodies

section Runs

variable {s : NamedServer ι} {c : ℕ}

/-- The history of every connection is the part of the protocol that it has behind it. -/
structure Inv (s : NamedServer ι) : Prop where
  server : s.server.Inv
  alive : s.server.phase = .alive
  agrees : s.Agrees
  past_eq : ∀ c, past s.history c = (protocol c).take (s.server.progress c)
  next_eq : s.server.nextConnid = s.history.countP ServerEvent.accepts + 1

theorem new_inv (base : ι) (cb : Bool) (name ipPort : List Char) (hip : ipPort.length ≤ 51) :
    (new base cb name ipPort).Inv := by
  refine ⟨TcpServer.new_inv base cb, rfl,
    ⟨hip, (wrapInt_of_lt (c := 1) (by decide)).symm, ?_, ?_, ?_⟩, fun _ => rfl, rfl⟩
  · intro c hc
    cases hc
  · intro c
    rfl
  · intro key c
    simp [new]

theorem count_past {history : List ServerEvent} (x : ServerEvent) :
    history.count x = (past history x.conn).count x := by
  rw [past, List.count_filter (by simp)]

theorem Inv.queued (h : s.Inv) {e : Entry ι} (hc : s.server.entries c = some e) :
    (s.server.queue e.loop).count (.connectionDestroyed c) +
        s.history.count (.connectionDestroyed c) = s.history.count (.removeConenctionInLoop c) ∧
      s.history.count (.removeConenctionInLoop c) ≤ 1 := by
  obtain ⟨st, hm⟩ := h.server.life c e hc
  have hq : (s.server.queue e.loop).count (.connectionDestroyed c) =
      (st.tasks c).count (.connectionDestroyed c) := by
    rw [← hm.tasks_eq, TcpServer.tasksOf, List.count_filter (by simp [Task.isLife, Task.conn])]
  have hp := h.past_eq c
  rw [hm.progress_eq h.alive hc] at hp
  rw [hq, count_past, count_past (.removeConenctionInLoop c)]
  simp only [ServerEvent.conn, hp]
  have hdoomed := hm.doomed_eq h.alive
  cases st with
  | waiting d | opening d | opened d =>
    cases hdoomed
    simp [Stage.tasks, Stage.progress, protocol]
  | _ => simp [Stage.tasks, Stage.progress, protocol]

theorem Inv.registry (h : s.Inv) : s.Registry := by
  have hnames : ∀ c key, s.names c = some key ↔
      .newConnection c ∈ s.history ∧ connName s.name s.ipPort c = key := by
    intro c key
    rw [h.agrees.names_eq]
    split <;> simp_all
  constructor
  · intro c
    rw [h.agrees.names_eq]
    split <;> simp_all
  · intro c d key hc hd
    rw [hnames] at hc hd
    exact connName_inj h.agrees.short (h.agrees.small c hc.1) (h.agrees.small d hd.1)
      (hc.2.trans hd.2.symm)
  · intro key c
    rw [h.agrees.holds, hnames]
    tauto
  · exact fun c e hc => h.queued hc
  · exact fun c i hi => h.server.shape.tasks i _ hi
  · intro c before rest hhist
    have hprefix : past before c ++ [.connectionDestroyed c] <+: protocol c := by
      refine List.IsPrefix.trans ?_ (List.take_prefix (s.server.progress c) (protocol c))
      rw [← h.past_eq, hhist, past_append]
      exact ⟨past rest c, by simp [past, ServerEvent.conn]⟩
    have hbefore := eq_takeWhile_of_append hprefix
    rw [← mem_past, ← mem_past (x := .handleClose c)]
    simp [ServerEvent.conn, hbefore, protocol]

variable [DecidableEq ι]

theorem mem_events_newConnection {s : TcpServer ι} {x : ServerLabel ι}
    (h : .newConnection c ∈ s.events x) : ∃ io sockfd, x = .newConnection io sockfd := by
  cases x with
  | newConnection io sockfd => exact ⟨io, sockfd, rfl⟩
  | handleRead d r =>
    rw [TcpServer.events_handleRead] at h
    repeat' split at h
    all_goals simp at h
  | _ =>
    simp only [TcpServer.events] at h
    repeat' split at h
    all_goals simp at h

theorem events_newConnection {s : TcpServer ι} {x : ServerLabel ι} {before rest : List ServerEvent}
    (h : s.events x = before ++ .newConnection c :: rest) : before = [] ∧ c = s.nextConnid := by
  obtain ⟨io, sockfd, rfl⟩ := mem_events_newConnection (s := s) (c := c) (by rw [h]; simp)
  simp only [TcpServer.events] at h
  split at h
  · split at h
    all_goals
      rcases before with _ | ⟨y, ys⟩
      · cases h
        exact ⟨rfl, rfl⟩
      · have hin : .newConnection c ∈ (y :: ys ++ .newConnection c :: rest).tail := by simp
        rw [← h] at hin
        simp at hin
  · simp at h

theorem step_inv (s : NamedServer ι) (x : ServerLabel ι) (h : s.Inv) (hx : s.Serving x) :
    Yields (s.step x) Inv := by
  have horderly : s.server.Orderly x := by
    unfold TcpServer.Orderly
    split
    · exact absurd rfl hx.1
    · exact fun hne => absurd h.alive hne
    · exact fun hne => absurd h.alive hne
    · exact fun hne => absurd h.alive hne
    · exact fun e hc => hx.2.2 _ _ e rfl hc
    · trivial
  obtain ⟨server, hserver, hinv⟩ := TcpServer.step_inv s.server x h.server horderly
  have hm := TcpServer.step_moves h.server h.alive hx.1 hserver
  have hpast : ∀ c, past (s.history ++ s.server.events x) c =
      (protocol c).take (server.progress c) := by
    intro c
    rw [past_append, h.past_eq, hm.take_eq]
    rfl
  have halong : Along perform (fun s x => Next s.history x) s (s.server.events x) := by
    apply along_perform
    · intro c
      rw [hpast]
      exact List.take_prefix _ _
    · intro before c rest hevents
      obtain ⟨rfl, rfl⟩ := events_newConnection hevents
      refine ⟨by simpa using h.next_eq, hx.2.1 _ ?_⟩
      simp [hevents]
  obtain ⟨t, ht, hagrees⟩ := run_invariant perform_agrees h.agrees halong
  have hhist := run_perform_history ht
  refine ⟨{ t with server := server }, ?_, hinv, hm.phase_eq.trans h.alive, ?_, ?_, ?_⟩
  · simp [step, hserver, ht, bind, Except.bind, pure, Except.pure]
  · exact ⟨hagrees.short, hagrees.counted, hagrees.small, hagrees.names_eq, hagrees.holds⟩
  · intro c
    exact (congrArg (past · c) hhist).trans (hpast c)
  · rw [hm.next_eq, h.next_eq, hhist, List.countP_append]
    omega

/--
While the server lives and has accepted fewer than `2 ^ 31` connections on an address of at most
51 characters, the assertion of `RemoveConenctionInLoop` holds and the registry is kept.
-/
theorem registry_kept (base : ι) (cb : Bool) (name ipPort : List Char) (hip : ipPort.length ≤ 51)
    (labels : List (ServerLabel ι)) (h : Along step Serving (new base cb name ipPort) labels) :
    Yields (run step (new base cb name ipPort) labels) Registry :=
  (run_invariant step_inv (new_inv base cb name ipPort hip) h).mono fun _ h => h.registry

theorem serving_of {x : ServerLabel ι} (hd : x ≠ .destroy)
    (hn : ∀ io sockfd, x ≠ .newConnection io sockfd) (hw : ∀ c w, x ≠ .handleWrite c w) :
    s.Serving x := by
  refine ⟨hd, fun c hc => ?_, fun c w e hx => absurd hx (hw c w)⟩
  obtain ⟨io, sockfd, hx⟩ := mem_events_newConnection hc
  exact absurd hx (hn io sockfd)

/-- A whole life: accepted, up on another loop, closed by its peer, removed and destroyed. -/
theorem registry_kept_whole_life :
    Yields (run step (new false true "echo".toList "0.0.0.0:2007".toList : NamedServer Bool)
      [.newConnection true 7, .runFunctor true (.wrote 0), .proceed true,
        .handleRead 1 (.bytes []), .proceed true, .proceed true, .runFunctor false (.wrote 0),
        .runFunctor true (.wrote 0), .proceed true]) Registry := by
  refine registry_kept false true _ _ (by decide) _ ⟨⟨by simp, ?_, by simp⟩, fun s _ => ?_⟩
  · intro c hc
    cases List.mem_singleton.mp hc
    decide
  · have hother : ∀ (s : NamedServer Bool) (x : ServerLabel Bool), x ≠ .destroy →
        (∀ io sockfd, x ≠ .newConnection io sockfd) → (∀ c w, x ≠ .handleWrite c w) →
        s.Serving x := fun _ _ => serving_of
    simp [Along, hother]

end Runs

end NamedServer

end Dwater
