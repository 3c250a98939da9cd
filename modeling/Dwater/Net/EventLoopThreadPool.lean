import Dwater.Base.Format
import Dwater.Lib.RoundRobin
import Dwater.Net.ByteQueue
import Dwater.Net.Lifecycle.Steps

/-! # The loops of a server's connections

The pool starts a thread for each of its loops and deals the loops out in turn. A server asks it
for a loop for every new connection, and a user of the server's pool may ask too. A connection
stays with the loop that it has been dealt.
-/

set_option autoImplicit false
namespace Dwater

open Fallible

variable {ι : Type}

/-- `threads` holds the names of the threads. -/
structure EventLoopThreadPool (ι : Type) where
  baseLoop : ι
  name : List Char
  started : Bool
  numThread : ℤ
  next : ℕ
  threads : List (List Char)
  loops : List ι

namespace EventLoopThreadPool

def new (baseLoop : ι) (name : List Char) : EventLoopThreadPool ι :=
  ⟨baseLoop, name, false, 0, 0, [], []⟩

def setThreadNum (p : EventLoopThreadPool ι) (n : ℤ) : EventLoopThreadPool ι :=
  { p with numThread := n }

def threadName (name : List Char) (i : ℕ) : List Char :=
  name.takeWhile (· ≠ '\x00') ++ formatInt i

/-- `Start`, where the `i`-th thread makes the loop `loopOf i`, with the loops on which `cb` has
been called; `none` where an assertion fails. -/
def start (p : EventLoopThreadPool ι) (cb : Bool) (loopOf : ℕ → ι) :
    Option (EventLoopThreadPool ι × List ι) :=
  if p.started then none
  else
    let loops := (List.range p.numThread.toNat).map loopOf
    some ({ p with
        started := true
        threads := p.threads ++ (List.range p.numThread.toNat).map (threadName p.name)
        loops := p.loops ++ loops },
      if cb then (if p.numThread = 0 then [p.baseLoop] else loops) else [])

/-- `none` where an assertion fails or the index is outside `loops_`. -/
def getNextLoop (p : EventLoopThreadPool ι) : Option (ι × EventLoopThreadPool ι) := do
  guard (p.started = true)
  if p.loops.isEmpty then return (p.baseLoop, p)
  let loop ← p.loops[p.next]?
  return (loop, { p with next := if p.loops.length ≤ p.next + 1 then 0 else p.next + 1 })

def getLoopForHash (p : EventLoopThreadPool ι) (hashCode : ℕ) : Option ι :=
  if p.loops.isEmpty then some p.baseLoop else p.loops[hashCode % p.loops.length]?

def getAllLoops (p : EventLoopThreadPool ι) : Option (List ι) := do
  guard (p.started = true)
  return if p.loops.isEmpty then [p.baseLoop] else p.loops

end EventLoopThreadPool

/-- A server with its pool. `picked` holds the loops that the pool has dealt, each with the
connection it was for; `initialized` those on which `thread_init_callback_` has been called. -/
structure PooledServer (ι : Type) where
  pool : EventLoopThreadPool ι
  server : TcpServer ι
  threadInitCallback : Bool
  initialized : List ι
  picked : List (ι × Option ℕ)

/-- A call on the base loop, a new connection, or a step of the connections that are there. -/
inductive PooledLabel (ι : Type)
  | setThreadNum (n : ℤ)
  | start (loopOf : ℕ → ι)
  | getNextLoop
  | newConnection (sockfd : ℕ)
  | server (x : ServerLabel ι)

namespace PooledServer

def new (base : ι) (name : List Char) (writeCompleteCallback threadInitCallback : Bool) :
    PooledServer ι :=
  ⟨.new base name, .new base writeCompleteCallback, threadInitCallback, [], []⟩

/-- What an assertion of the pool stops, called by the server on this line. -/
def called {α : Type} (line : ℕ) (x : Option α) : Except Fault α :=
  match x with
  | some a => return a
  | none => throw (.assertion .tcp_server_cc line)

variable [DecidableEq ι]

/-- The exchange in `Start` lets one call in; the acceptor listens from then on. -/
def step (s : PooledServer ι) : PooledLabel ι → Except Fault (PooledServer ι)
  | .setThreadNum n => do
    check (0 ≤ n) (.assertion .tcp_server_cc 50)
    return { s with pool := s.pool.setThreadNum n }
  | .start loopOf =>
    if s.pool.started then return s
    else do
      let r ← called 56 (s.pool.start s.threadInitCallback loopOf)
      return { s with pool := r.1, initialized := s.initialized ++ r.2 }
  | .getNextLoop =>
    match s.pool.getNextLoop with
    | some (io, pool) => return { s with pool := pool, picked := s.picked ++ [(io, none)] }
    | none => return s
  | .newConnection sockfd =>
    if s.pool.started = true ∧ s.server.phase = .alive ∧ s.server.stack s.server.base = [] then do
      let (io, pool) ← called 65 s.pool.getNextLoop
      let server ← s.server.newConnection io sockfd
      return { s with
        pool := pool, server := server, picked := s.picked ++ [(io, some s.server.nextConnid)] }
    else return s
  | .server (.newConnection _ _) => return s
  | .server x => do
    let server ← s.server.step x
    return { s with server := server }

end PooledServer

namespace EventLoopThreadPool

/-- What is dealt: the loops of the threads, or the base loop if there are none. -/
def choices (p : EventLoopThreadPool ι) : List ι :=
  if p.loops.isEmpty then [p.baseLoop] else p.loops

variable {p p' : EventLoopThreadPool ι} {io : ι}

theorem threadName_inj {name : List Char} {i j : ℕ} (h : threadName name i = threadName name j) :
    i = j := by
  have hint := formatInt_inj (Int.natCast_nonneg i) (Int.natCast_nonneg j)
    (List.append_cancel_left h)
  exact_mod_cast hint

theorem getLoopForHash_eq (hashCode : ℕ) :
    p.getLoopForHash hashCode = p.choices[hashCode % p.choices.length]? := by
  unfold getLoopForHash choices
  split
  · simp [Nat.mod_one]
  · rfl

theorem getAllLoops_eq (h : p.started = true) : p.getAllLoops = some p.choices := by
  simp [getAllLoops, choices, h]

theorem getNextLoop_eq (h : p.started = true) {k : ℕ}
    (hnext : p.loops ≠ [] → p.next = k % p.loops.length) :
    ∃ io next, p.getNextLoop = some (io, { p with next := next }) ∧
      p.choices[k % p.choices.length]? = some io ∧
        (p.loops ≠ [] → next = (k + 1) % p.loops.length) := by
  have hguard : (guard (p.started = true) : Option Unit) = some () := if_pos h
  by_cases hloops : p.loops = []
  · refine ⟨p.baseLoop, p.next, show p.getNextLoop = some (p.baseLoop, p) from ?_, ?_,
      absurd hloops⟩
    · simp only [getNextLoop, hguard, hloops]
      rfl
    · simp [choices, hloops, Nat.mod_one]
  · have hpos : 0 < p.loops.length := List.length_pos_iff.mpr hloops
    have hempty : p.loops.isEmpty = false := by simpa using hloops
    have hlt : p.next < p.loops.length := hnext hloops ▸ Nat.mod_lt k hpos
    have hget := List.getElem?_eq_getElem hlt
    refine ⟨p.loops[p.next], _, ?_, ?_, fun _ => wrap_eq_mod (hnext hloops) hpos⟩
    · unfold getNextLoop
      rw [hguard, hempty, hget]
      rfl
    · rw [← hget, choices, hempty, hnext hloops]
      rfl

end EventLoopThreadPool

namespace PooledServer

structure Inv (s : PooledServer ι) : Prop where
  numThread : 0 ≤ s.pool.numThread
  idle : s.pool.started = false → s.pool.loops = [] ∧ s.pool.next = 0 ∧ s.pool.threads = [] ∧
    s.initialized = [] ∧ s.picked = []
  next : s.pool.loops ≠ [] → s.pool.next = s.picked.length % s.pool.loops.length
  inTurn : DealtInTurn s.pool.choices (s.picked.map Prod.fst)
  initialized : s.pool.started = true →
    s.initialized = if s.threadInitCallback then s.pool.choices else []
  names : s.pool.threads.Nodup
  nextConnid : s.server.nextConnid = (s.picked.filterMap Prod.snd).length + 1
  numbers : s.picked.filterMap Prod.snd = List.range' 1 (s.picked.filterMap Prod.snd).length
  connections : ∀ c io, (s.server.entries c).map Entry.loop = some io → (io, some c) ∈ s.picked

variable {s t : PooledServer ι}

theorem new_inv (base : ι) (name : List Char) (writeCompleteCallback threadInitCallback : Bool) :
    (new base name writeCompleteCallback threadInitCallback).Inv := by
  refine ⟨le_rfl, fun _ => ⟨rfl, rfl, rfl, rfl, rfl⟩, fun hne => absurd rfl hne, dealtInTurn_nil,
    ?_, List.nodup_nil, rfl, rfl, ?_⟩
  · simp [new, EventLoopThreadPool.new]
  · simp [new, TcpServer.new]

theorem Inv.start (h : s.Inv) (hidle : s.pool.started = false) {loopOf : ℕ → ι}
    {r : EventLoopThreadPool ι × List ι}
    (hr : s.pool.start s.threadInitCallback loopOf = some r) :
    Inv { s with pool := r.1, initialized := s.initialized ++ r.2 } := by
  obtain ⟨hloops, hnext, hthreads, hinit, hpicked⟩ := h.idle hidle
  unfold EventLoopThreadPool.start at hr
  rw [if_neg (by simp [hidle])] at hr
  cases hr
  have hzero : s.pool.numThread = 0 ↔ s.pool.numThread.toNat = 0 := by
    have hnonneg := h.numThread
    omega
  refine ⟨h.numThread, (fun hs => nomatch hs), fun _ => ?_, ?_, fun _ => ?_, ?_, h.nextConnid,
    h.numbers, h.connections⟩
  · simp [hnext, hpicked]
  · simpa [hpicked] using dealtInTurn_nil
  · simp only [hinit, hloops, EventLoopThreadPool.choices, List.nil_append, hzero]
    cases s.threadInitCallback <;> simp
  · simp only [hthreads, List.nil_append]
    exact List.nodup_range.map fun _ _ => EventLoopThreadPool.threadName_inj

theorem Inv.pick (h : s.Inv) (hstarted : s.pool.started = true) {io : ι} {next : ℕ}
    (hio : s.pool.choices[s.picked.length % s.pool.choices.length]? = some io)
    (hnext : s.pool.loops ≠ [] → next = (s.picked.length + 1) % s.pool.loops.length) :
    Inv { s with pool := { s.pool with next := next }, picked := s.picked ++ [(io, none)] } := by
  refine ⟨h.numThread, (fun hs => nomatch hs.symm.trans hstarted), ?_, ?_, h.initialized,
    h.names, ?_, ?_, fun c io hc => ?_⟩
  · simpa using hnext
  · rw [List.map_append]
    refine h.inTurn.concat ?_
    rw [List.length_map]
    exact hio
  · simpa using h.nextConnid
  · simpa using h.numbers
  · exact List.mem_append_left _ (h.connections c io hc)

variable [DecidableEq ι]

theorem Inv.connect (h : s.Inv) (hstarted : s.pool.started = true) {io : ι} {next : ℕ}
    (hio : s.pool.choices[s.picked.length % s.pool.choices.length]? = some io)
    (hnext : s.pool.loops ≠ [] → next = (s.picked.length + 1) % s.pool.loops.length)
    {sockfd : ℕ} {server : TcpServer ι} (hserver : s.server.newConnection io sockfd = .ok server) :
    Inv { s with
      pool := { s.pool with next := next }
      server := server
      picked := s.picked ++ [(io, some s.server.nextConnid)] } := by
  obtain ⟨-, hnextConnid, hentries⟩ := TcpServer.newConnection_loops hserver
  have hpick := h.pick hstarted hio hnext
  refine ⟨h.numThread, (fun hs => nomatch hs.symm.trans hstarted), by simpa using hnext, ?_,
    h.initialized, h.names, ?_, ?_, fun c io' hc => ?_⟩
  · simpa using hpick.inTurn
  · simp [hnextConnid, h.nextConnid]
  · have hnumbers := h.numbers
    simp only [List.filterMap_append, List.filterMap_cons, List.filterMap_nil, List.length_append,
      List.length_singleton]
    rw [List.range'_concat, ← hnumbers, h.nextConnid]
    simp [Nat.add_comm]
  · rw [hentries c] at hc
    split at hc
    · next heq =>
      cases hc
      rw [heq]
      exact List.mem_append_right _ (List.mem_singleton_self _)
    · exact List.mem_append_left _ (h.connections c io' hc)

omit [DecidableEq ι] in
theorem Inv.continues (h : s.Inv) {server : TcpServer ι} (hk : s.server.Continues server) :
    Inv { s with server := server } :=
  ⟨h.numThread, h.idle, h.next, h.inTurn, h.initialized, h.names,
    hk.nextConnid.trans h.nextConnid, h.numbers,
    fun c io hc => h.connections c io ((hk.loops c).symm.trans hc)⟩

omit [DecidableEq ι] in
theorem called_eq_ok {α : Type} {line : ℕ} {x : Option α} {a : α} (h : called line x = .ok a) :
    x = some a := by
  cases x with
  | none => cases h
  | some b =>
    cases h
    rfl

omit [DecidableEq ι] in
theorem Inv.getNextLoop (h : s.Inv) {io : ι} {pool : EventLoopThreadPool ι}
    (hpool : s.pool.getNextLoop = some (io, pool)) : s.pool.started = true ∧
      s.pool.choices[s.picked.length % s.pool.choices.length]? = some io ∧
      ∃ next, pool = { s.pool with next := next } ∧
        (s.pool.loops ≠ [] → next = (s.picked.length + 1) % s.pool.loops.length) := by
  have hstarted : s.pool.started = true := by
    by_contra hs
    have hguard : (guard (s.pool.started = true) : Option Unit) = none := if_neg hs
    rw [EventLoopThreadPool.getNextLoop, hguard] at hpool
    cases hpool
  obtain ⟨io', next, heq, hio, hnext⟩ := EventLoopThreadPool.getNextLoop_eq hstarted h.next
  rw [heq] at hpool
  cases hpool
  exact ⟨hstarted, hio, next, rfl, hnext⟩

theorem step_inv (s : PooledServer ι) (l : PooledLabel ι) (t : PooledServer ι) (h : s.Inv)
    (ht : s.step l = .ok t) : t.Inv := by
  cases l with
  | setThreadNum n =>
    obtain ⟨hn, ht⟩ := check_bind_eq_ok ht
    cases ht
    exact ⟨hn, h.idle, h.next, h.inTurn, h.initialized, h.names, h.nextConnid, h.numbers,
      h.connections⟩
  | start loopOf =>
    simp only [step] at ht
    split at ht
    · cases ht
      exact h
    · next hstarted =>
      obtain ⟨r, hr, ht⟩ := bind_eq_ok ht
      cases ht
      exact h.start (Bool.eq_false_of_not_eq_true hstarted) (called_eq_ok hr)
  | getNextLoop =>
    simp only [step] at ht
    split at ht
    · next io pool hpool =>
      cases ht
      obtain ⟨hstarted, hio, next, rfl, hnext⟩ := h.getNextLoop hpool
      exact h.pick hstarted hio hnext
    · cases ht
      exact h
  | newConnection sockfd =>
    obtain ⟨hcan, ht⟩ | rfl := ite_eq_ok ht
    · obtain ⟨⟨io, pool⟩, hpool, ht⟩ := bind_eq_ok ht
      obtain ⟨server, hserver, ht⟩ := bind_eq_ok ht
      cases ht
      obtain ⟨hstarted, hio, next, rfl, hnext⟩ := h.getNextLoop (called_eq_ok hpool)
      exact h.connect hstarted hio hnext hserver
    · exact h
  | server x =>
    cases x with
    | newConnection io sockfd =>
      cases ht
      exact h
    | proceed | runFunctor | handleRead | handleWrite | send | shutdown | forceClose | destroy =>
      obtain ⟨server, hserver, ht⟩ := bind_eq_ok ht
      cases ht
      exact h.continues (TcpServer.step_continues (by simp) hserver)

structure Dealt (s : PooledServer ι) (loops : List ι) : Prop where
  all : s.pool.getAllLoops = some loops
  inTurn : DealtInTurn loops (s.picked.map Prod.fst)
  balanced : loops.Nodup → ∀ io ∈ loops,
    s.picked.length / loops.length ≤ (s.picked.map Prod.fst).count io ∧
      (s.picked.map Prod.fst).count io ≤ s.picked.length / loops.length + 1
  forHash : ∀ hashCode, s.pool.getLoopForHash hashCode = loops[hashCode % loops.length]?

  /-- The callback for new threads has been called on every loop, -/
  initialized : s.threadInitCallback = true → s.initialized = loops
  names : s.pool.threads.Nodup

  /-- and every connection is still with the loop that was dealt for it. -/
  connections : ∀ c e, s.server.entries c = some e → (e.loop, some c) ∈ s.picked

  /-- When nobody else has asked for a loop, that is the one whose turn it was. -/
  own : (∀ p ∈ s.picked, p.2 ≠ none) → ∀ c e, s.server.entries c = some e →
    0 < c ∧ loops[(c - 1) % loops.length]? = some e.loop

omit [DecidableEq ι] in
theorem map_some_filterMap {l : List (ι × Option ℕ)} (h : ∀ p ∈ l, p.2 ≠ none) :
    (l.filterMap Prod.snd).map some = l.map Prod.snd := by
  induction l with
  | nil => rfl
  | cons p l ih =>
    have hrest := ih fun q hq => h q (List.mem_cons_of_mem p hq)
    obtain ⟨c, hc⟩ := Option.ne_none_iff_exists'.mp (h p List.mem_cons_self)
    rw [List.filterMap_cons_some hc, List.map_cons, hrest, List.map_cons, hc]

theorem Inv.dealt (h : s.Inv) (hstarted : s.pool.started = true) : s.Dealt s.pool.choices := by
  have hconnections : ∀ c e, s.server.entries c = some e → (e.loop, some c) ∈ s.picked :=
    fun c e he => h.connections c e.loop (by rw [he]; rfl)
  refine ⟨EventLoopThreadPool.getAllLoops_eq hstarted, h.inTurn, fun hnodup io hio => ?_,
    EventLoopThreadPool.getLoopForHash_eq, fun hcallback => ?_, h.names, hconnections,
    fun hown c e he => ?_⟩
  · simpa using h.inTurn.count_bounds hnodup hio
  · rw [h.initialized hstarted, if_pos hcallback]
  · obtain ⟨k, hget⟩ := List.mem_iff_getElem?.mp (hconnections c e he)
    have hnumber : (s.picked.filterMap Prod.snd)[k]? = some c := by
      have hsnd : (s.picked.map Prod.snd)[k]? = some (some c) := by
        rw [List.getElem?_map, hget]
        rfl
      rw [← map_some_filterMap hown, List.getElem?_map] at hsnd
      obtain ⟨d, hd, heq⟩ := Option.map_eq_some_iff.mp hsnd
      rw [hd, Option.some.inj heq]
    rw [h.numbers] at hnumber
    obtain ⟨hk, hc⟩ := List.getElem?_eq_some_iff.mp hnumber
    rw [List.getElem_range'] at hc
    have hk' : k = c - 1 := by omega
    have hlt : k < (s.picked.map Prod.fst).length := by
      rw [List.length_map]
      exact (List.getElem?_eq_some_iff.mp hget).1
    refine ⟨by omega, ?_⟩
    rw [← hk', ← h.inTurn k hlt, List.getElem?_map, hget]
    rfl

/-- Loops are dealt in turn, whatever the connections do meanwhile. -/
theorem loops_dealt_in_turn (base : ι) (name : List Char) (writeCompleteCallback : Bool)
    (threadInitCallback : Bool) (labels : List (PooledLabel ι))
    (h : run step (new base name writeCompleteCallback threadInitCallback) labels = .ok s)
    (hstarted : s.pool.started = true) : ∃ loops, s.Dealt loops := by
  have hinv := reached_invariant (C := fun _ _ => True) (fun s l t hs _ ht => step_inv s l t hs ht)
    (new_inv base name writeCompleteCallback threadInitCallback)
    (along_of_forall (fun _ _ => trivial) _ labels) h
  exact ⟨_, hinv.dealt hstarted⟩

/-- Two connections and a user's request on two threads. -/
theorem loops_dealt_in_turn_two_threads :
    ∃ s : PooledServer ℕ, run step (new 0 [] false true)
        [.setThreadNum 2, .start (· + 1), .newConnection 7, .getNextLoop, .newConnection 8] =
        .ok s ∧
      ∃ loops, s.Dealt loops := by
  have hrun : ∃ s : PooledServer ℕ, run step (new 0 [] false true)
      [.setThreadNum 2, .start (· + 1), .newConnection 7, .getNextLoop, .newConnection 8] =
        .ok s ∧ s.pool.started = true := by
    simp only [run, step, TcpServer.newConnection, TcpConnection.new, Buffer.new_eq]
    exact ⟨_, rfl, rfl⟩
  obtain ⟨s, hs, hstarted⟩ := hrun
  exact ⟨s, hs, loops_dealt_in_turn 0 [] false true _ hs hstarted⟩

end PooledServer

end Dwater
