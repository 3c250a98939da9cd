import Dwater.Net.Lifecycle.Runs
import Dwater.Net.Lifecycle.ServerProcess
import Dwater.Net.Lifecycle.Steps

/-! # Every connection lives once

The server's steps keep their invariant when threads take them. What the threads add: the
channels that `~TcpServer` and its connections have still to remove can be removed, no loop
is told to quit before the connections are let go, and a loop that has left `Loop()` leaves
no connection behind.
-/

set_option autoImplicit false
namespace Dwater

open Fallible

variable {κ : Type}

def Frame.channels : Frame → List ServerChannel
  | removeChannel c => [.connection c]
  | destroying rest => .acceptor :: rest.map .connection
  | _ => []

namespace ServerProcess

/-- `~TcpServer` finds no channel of the server active but the one whose event is being handled,
which is not the acceptor's. -/
def Unwatched (p : ServerProcess κ) : Prop :=
  (p.threads none).phase = .handling → (p.threads none).currActiveChannel ≠ some .acceptor ∧
    ∀ ch ∈ (p.threads none).activeChannels,
      (ch = .acceptor ∨ ∃ c ∈ p.server.connections, ch = .connection c) →
        (p.threads none).currActiveChannel = some ch

/-- No life is to begin or end on the loop. -/
def Emptied (p : ServerProcess κ) (i : Option κ) : Prop :=
  ∀ t ∈ p.server.queue i, t.isLife = false

/-- The steps of the server are orderly, `~TcpServer` finds no channel active that it has to
remove, and no loop is destroyed with a life on it. -/
def Orderly (p : ServerProcess κ) : ProcessLabel κ → Prop
  | .server x => p.server.Orderly x ∧ (x = .destroy → p.server.phase = .alive → p.Unwatched)
  | .thread (some k) .testQuit =>
    (p.threads (some k)).phase = .test → (p.threads (some k)).quit = true → p.Emptied (some k)
  | .destroyLoop => p.Emptied none
  | _ => True

/-- The connections live once, and those of a loop that is gone have lived. -/
def LivesOnce (p : ServerProcess κ) : Prop :=
  p.server.LivesOnce ∧ ∀ i, (p.threads i).phase = .stopped →
    ∀ c e, p.server.entries c = some e → e.loop = i → e.log = wholeLife

end ServerProcess

namespace TcpServer

def Released (s : TcpServer (Option κ)) : Prop :=
  s.phase ≠ .alive ∧ ∀ f ∈ s.stack none, f.rest = []

theorem Released.held_eq {s : TcpServer (Option κ)} (h : s.Released) (hb : s.base = none) :
    s.held = [] := by
  rw [held, if_neg h.1, hb, List.flatMap_eq_nil_iff]
  exact h.2

theorem Inv.placed {s : TcpServer (Option κ)} (h : s.Inv) : s.Placed := by
  constructor
  · intro i rest hf
    exact h.shape.frames i _ hf
  · intro i c e ht hc
    obtain ⟨e', hc', hi⟩ := h.shape.tasks i _ ht
    cases hc.symm.trans hc'
    exact hi

theorem Inv.over {s : TcpServer (Option κ)} (h : s.Inv) {c : ℕ} {e : Entry (Option κ)}
    (hc : s.entries c = some e) (hlog : e.log = wholeLife) : e.conn.state = .kdisconnected :=
  (h.livesOnce c e hc).2.1 (by rw [hlog]; decide)

/-- When the server has let its connections go, a loop with nothing to do for them has none. -/
theorem Inv.over_of_idle {s : TcpServer (Option κ)} (h : s.Inv) (hheld : s.held = [])
    {i : Option κ} (hst : s.stack i = []) (hq : ∀ t ∈ s.queue i, t.isLife = false) {c : ℕ}
    {e : Entry (Option κ)} (hc : s.entries c = some e) (hi : e.loop = i) : e.log = wholeLife := by
  obtain ⟨st, hm⟩ := h.life c e hc
  subst hi
  have hframes := hm.frames_eq
  have hcount := hm.held_eq
  have htasks : st.tasks c = [] := by
    rw [← hm.tasks_eq, tasksOf, List.filter_eq_nil_iff]
    intro t ht
    simp [hq t ht]
  rw [hst] at hframes
  rw [hheld] at hcount
  rw [hm.log_eq]
  cases st with
  | gone => rfl
  | waiting d => cases d <;> cases htasks
  | opened d =>
    cases d with
    | false => cases hcount
    | true => cases htasks
  | opening | closing | leaving | ending | parting => cases hframes
  | removing => cases hcount
  | condemned => cases htasks

variable [DecidableEq κ]

/-- A loop goes with what is queued on it, none of which begins or ends a life. -/
theorem Inv.drop {s : TcpServer (Option κ)} (h : s.Inv) (hheld : s.held = []) {i : Option κ}
    (hq : ∀ t ∈ s.queue i, t.isLife = false) :
    Inv { s with queue := Function.update s.queue i [] } := by
  have hsub : ∀ j, ∀ t ∈ Function.update s.queue i [] j, t ∈ s.queue j := by
    intro j t ht
    by_cases hj : j = i
    · subst hj
      rw [Function.update_self] at ht
      cases ht
    · rwa [Function.update_of_ne hj] at ht
  have htasks : ∀ c j, tasksOf c (Function.update s.queue i [] j) = tasksOf c (s.queue j) := by
    intro c j
    by_cases hj : j = i
    · subst hj
      rw [Function.update_self, eq_comm, tasksOf, tasksOf_nil, List.filter_eq_nil_iff]
      intro t ht
      simp [hq t ht]
    · rw [Function.update_of_ne hj]
  refine ⟨⟨h.shape.frames, fun j t ht => h.shape.tasks j t (hsub j t ht), h.shape.shallow,
    h.shape.undoomed, h.shape.unborn⟩, h.unheld, fun c e hc => ?_⟩
  obtain ⟨st, hm⟩ := h.life c e hc
  refine ⟨st, hm.log_eq, hm.frames_eq, (htasks c e.loop).trans hm.tasks_eq, ?_, hm.held_eq,
    fun hf => hm.forced (hsub _ _ hf), hm.fits, hm.input, hm.output⟩
  have hnone : st.removals c = [] := by
    have hcount := hm.held_eq
    rw [hheld] at hcount
    cases st with
    | removing => cases hcount
    | _ => rfl
  have hremovals := hm.removals_eq.trans hnone
  rw [hnone]
  rw [removalsOf, List.filter_eq_nil_iff] at hremovals ⊢
  exact fun t ht => hremovals t (hsub _ t ht)

theorem Released.continues {s t : TcpServer (Option κ)} (h : s.Released)
    {x : ServerLabel (Option κ)} (ht : s.step x = .ok t) : s.Continues t := by
  by_cases hn : ∃ io sockfd, x = .newConnection io sockfd
  · obtain ⟨io, sockfd, rfl⟩ := hn
    obtain ⟨hc, -⟩ | rfl := ite_eq_ok ht
    · exact absurd hc.1 h.1
    · exact .refl
  · exact step_continues (fun io sockfd heq => hn ⟨io, sockfd, heq⟩) ht

theorem Released.step {s t : TcpServer (Option κ)} (h : s.Released) (hp : s.Placed)
    {x : ServerLabel (Option κ)} (ht : s.step x = .ok t) : t.Released := by
  by_cases hd : x = .destroy
  · subst hd
    obtain ⟨hc, -⟩ | rfl := ite_eq_ok ht
    · exact absurd hc.1 h.1
    · exact h
  · constructor
    · exact fun ha => h.1 ((h.continues ht).alive ha)
    · intro f hf
      rcases (step_replaces hp hd ht).mem hf with hf | hcall | hleave
      · exact h.2 f hf
      · cases f <;> first | rfl | cases hcall
      · cases x with
        | runFunctor i w =>
          obtain ⟨-, c, rfl⟩ := hleave
          rfl
        | proceed i =>
          obtain ⟨rfl, c, rest, frames, hst, -⟩ := hleave
          have hnil := h.2 (.destroying (c :: rest)) (hst ▸ List.mem_cons_self)
          exact absurd hnil (by simp [Frame.rest])
        | _ => exact hleave.elim

theorem Released.over {s t : TcpServer (Option κ)} (h : s.Released)
    {x : ServerLabel (Option κ)} (ht : s.step x = .ok t) (hinv : t.Inv) {i : Option κ}
    (hover : ∀ c e, s.entries c = some e → e.loop = i → e.log = wholeLife) {c : ℕ}
    {e : Entry (Option κ)} (hc : t.entries c = some e) (hi : e.loop = i) : e.log = wholeLife := by
  have hcont := h.continues ht
  have hloop := hcont.loops c
  rw [hc] at hloop
  obtain ⟨e₀, hc₀, hi₀⟩ := Option.map_eq_some_iff.mp hloop.symm
  obtain ⟨e', hc', hlog⟩ := hcont.logs c e₀ hc₀
  cases hc.symm.trans hc'
  rw [hover c e₀ hc₀ (hi₀.trans hi)] at hlog
  exact (hinv.livesOnce c e hc).1.eq_of_length_le hlog.length_le

end TcpServer

namespace ServerProcess

def Frees (t : ThreadState) (ch : ServerChannel) : Prop :=
  t.phase = .handling → (t.currActiveChannel = some ch ∨ ch ∉ t.activeChannels) ∧
    (ch = .acceptor → t.currActiveChannel ≠ some ch)

structure Inv (p : ServerProcess κ) : Prop where
  server : p.server.Inv
  base : p.server.base = none
  sole : ∀ i, (p.server.stack i).countP Frame.isTeardown ≤ 1
  frees : ∀ i, ∀ f ∈ p.server.stack i, ∀ ch ∈ f.channels, Frees (p.threads i) ch
  members : .threadPool ∉ p.members → p.server.Released
  quits : ∀ k, (p.threads (some k)).quit = true → p.server.Released
  stopped : ∀ i, (p.threads i).phase = .stopped → p.server.Released ∧
    ∀ c e, p.server.entries c = some e → e.loop = i → e.log = wholeLife

section Invariant

variable {p : ServerProcess κ} {i : Option κ}

theorem new_inv (pool : List κ) (cb : Bool) : (new pool cb).Inv := by
  refine ⟨TcpServer.new_inv none cb, rfl, fun _ => Nat.zero_le 1, ?_, ?_, ?_, ?_⟩
  · exact fun _ _ hf => absurd hf List.not_mem_nil
  · exact fun hm => absurd List.mem_cons_self hm
  · intro k hq
    cases hq
  · intro i hs
    cases hs

theorem Inv.congr {q : ServerProcess κ} (h : p.Inv) (hserver : q.server = p.server)
    (hthreads : q.threads = p.threads) (hmembers : .threadPool ∉ q.members → p.server.Released) :
    q.Inv := by
  obtain ⟨pool, server, threads, members, farewells, poolShared⟩ := q
  cases hserver
  cases hthreads
  exact ⟨h.server, h.base, h.sole, h.frees, hmembers, h.quits, h.stopped⟩

theorem Inv.livesOnce (h : p.Inv) : p.LivesOnce :=
  ⟨h.server.livesOnce, fun i hs => (h.stopped i hs).2⟩

/-- With the last connection gone, `~TcpServer` comes to its members. -/
theorem Inv.released (h : p.Inv) {frames : List Frame}
    (hst : p.server.stack i = .destroying [] :: frames) : i = none ∧ p.server.Released := by
  have hi : i = none := by
    rw [← h.base]
    exact h.server.placed.teardown i [] (hst ▸ List.mem_cons_self)
  subst hi
  refine ⟨rfl, fun ha => ?_, fun f hf => ?_⟩
  · have hmem : Frame.destroying [] ∈ p.server.stack p.server.base := by
      rw [h.base, hst]
      exact List.mem_cons_self
    exact h.server.shape.undoomed ha _ hmem rfl
  · have hone := h.sole none
    rw [hst] at hf hone
    rcases List.mem_cons.mp hf with rfl | hf
    · rfl
    · have hzero : frames.countP Frame.isTeardown = 0 := by
        rw [List.countP_cons_of_pos rfl] at hone
        omega
      have hno := List.countP_eq_zero.mp hzero f hf
      cases f with
      | destroying rest => exact absurd rfl hno
      | _ => rfl

variable [DecidableEq κ]

theorem Inv.setThread (h : p.Inv) {t : ThreadState}
    (hf : ∀ f ∈ p.server.stack i, ∀ ch ∈ f.channels, Frees t ch)
    (hq : ∀ k, i = some k → t.quit = true → p.server.Released)
    (hs : t.phase = .stopped → p.server.Released ∧
      ∀ c e, p.server.entries c = some e → e.loop = i → e.log = wholeLife) :
    (p.setThread i t).Inv := by
  have hthread : ∀ j, (p.setThread i t).threads j = if j = i then t else p.threads j :=
    fun j => Function.update_apply ..
  refine ⟨h.server, h.base, h.sole, fun j f hmem ch hch => ?_, h.members, fun k hk => ?_,
    fun j hj => ?_⟩
  · rw [hthread]
    split
    · next hji =>
      subst hji
      exact hf f hmem ch hch
    · exact h.frees j f hmem ch hch
  · rw [hthread] at hk
    split at hk
    · next hki => exact hq k hki.symm hk
    · exact h.quits k hk
  · rw [hthread] at hj
    split at hj
    · next hji =>
      subst hji
      exact hs hj
    · exact h.stopped j hj

omit [DecidableEq κ] in
theorem advance_quit {t : ThreadState} {pending : ℕ} {a : ThreadAction}
    (h : (t.advance pending a).quit = true) : t.quit = true := by
  cases a <;> unfold ThreadState.advance at h <;> simp only at h <;> split at h <;>
    first | exact h | cases h

omit [DecidableEq κ] in
theorem advance_stopped {t : ThreadState} {pending : ℕ} {a : ThreadAction}
    (h : (t.advance pending a).phase = .stopped) : t.phase = .stopped := by
  cases a with
  | testQuit =>
    simp only [ThreadState.advance] at h
    split at h
    · simp only at h
      split at h <;> cases h
    · exact h
  | loop | pollReturn | swap | ran =>
    simp only [ThreadState.advance] at h
    split at h
    · cases h
    · exact h
  | handleNext =>
    simp only [ThreadState.advance] at h
    split at h
    · next hp _ => exact absurd (hp.symm.trans h) (by decide)
    · exact h

theorem Inv.destroyLoop (h : p.Inv) (hreleased : p.server.Released) {i : Option κ}
    (hst : p.server.stack i = []) (hq : p.Emptied i) : (p.destroyLoop i).Inv := by
  have hheld := hreleased.held_eq h.base
  have hdrop : Inv { p with
      server := { p.server with queue := Function.update p.server.queue i [] } } :=
    ⟨h.server.drop hheld hq, h.base, h.sole, h.frees, h.members, h.quits, h.stopped⟩
  refine hdrop.setThread (fun f hf => ?_) (fun _ _ _ => hreleased) fun _ => ⟨hreleased, ?_⟩
  · exact absurd (hst ▸ hf : f ∈ []) List.not_mem_nil
  · exact fun c e hc hi => h.server.over_of_idle hheld hst hq hc hi

theorem advance_inv (h : p.Inv) (i : Option κ) (a : ThreadAction)
    (hx : p.Orderly (.thread i a)) : (p.advance i a).Inv := by
  unfold advance
  simp only
  split
  · next hst =>
    have hmoved : (p.setThread i
        ((p.threads i).advance (p.server.queue i).length a)).Inv := by
      refine h.setThread (fun f hf => ?_) (fun k hk hq => ?_) fun hs => ?_
      · exact absurd (hst ▸ hf : f ∈ []) List.not_mem_nil
      · subst hk
        exact h.quits k (advance_quit hq)
      · exact h.stopped i (advance_stopped hs)
    split
    · split
      · next k hp => exact h.destroyLoop (h.quits k hp.2) hst (hx hp.1 hp.2)
      · exact hmoved
    · split
      · exact hmoved
      · exact h
    · exact hmoved
  · exact h

theorem Inv.frees_step (h : p.Inv) {x : ServerLabel (Option κ)} (hd : x ≠ .destroy)
    (hrun : ∀ j w, x = .runFunctor j w → (p.threads j).phase = .running)
    {t : TcpServer (Option κ)} (ht : p.server.step x = .ok t) :
    ∀ j, ∀ f ∈ t.stack j, ∀ ch ∈ f.channels, Frees (p.threads j) ch := by
  intro j f hf ch hch
  rcases (TcpServer.step_replaces h.server.placed hd ht).mem hf with hf | hcall | hleave
  · exact h.frees j f hf ch hch
  · cases f with
    | connectionCallback | closeCallback => cases hch
    | _ => cases hcall
  · cases x with
    | runFunctor k w =>
      obtain ⟨rfl, -⟩ := hleave
      intro hp
      exact absurd ((hrun k w rfl).symm.trans hp) (by decide)
    | proceed k =>
      obtain ⟨rfl, c, rest, frames, hst, hcase⟩ := hleave
      refine h.frees k (.destroying (c :: rest)) (hst ▸ List.mem_cons_self) ch ?_
      rcases hcase with rfl | rfl
      · rw [List.mem_singleton.mp hch]
        exact List.mem_cons_of_mem _ List.mem_cons_self
      · rcases List.mem_cons.mp hch with rfl | hch
        · exact List.mem_cons_self
        · exact List.mem_cons_of_mem _ (List.mem_cons_of_mem _ hch)
    | _ => exact hleave.elim

theorem serve_inv (h : p.Inv) {x : ServerLabel (Option κ)} (hx : p.server.Orderly x)
    (hd : x ≠ .destroy) (hrun : ∀ j w, x = .runFunctor j w → (p.threads j).phase = .running) :
    Yields (p.serve x) Inv := by
  obtain ⟨t, ht, hinv⟩ := TcpServer.step_inv p.server x h.server hx
  have hplaced := h.server.placed
  refine ⟨{ p with server := t }, by rw [serve, ht]; rfl, hinv, ?_, fun i => ?_,
    h.frees_step hd hrun ht, fun hm => (h.members hm).step hplaced ht,
    fun k hk => (h.quits k hk).step hplaced ht, fun i hi => ?_⟩
  · exact (TcpServer.step_base ht).trans h.base
  · exact le_trans (TcpServer.step_replaces hplaced hd ht).countP_le (h.sole i)
  · obtain ⟨hr, hover⟩ := h.stopped i hi
    exact ⟨hr.step hplaced ht, fun c e hc hloop => hr.over ht hinv hover hc hloop⟩

theorem destroy_inv (h : p.Inv) (hx : p.Orderly (.server .destroy)) :
    Yields (p.serve .destroy) Inv := by
  obtain ⟨t, ht, hinv⟩ := TcpServer.step_inv p.server .destroy h.server hx.1
  refine ⟨{ p with server := t }, by rw [serve, ht]; rfl, ?_⟩
  obtain ⟨hc, ht⟩ | rfl := ite_eq_ok ht
  · cases ht
    have halive := hc.1
    have hself : p.server.destroy.stack p.server.base =
        .destroying p.server.connections :: p.server.stack p.server.base := Function.update_self ..
    have hother : ∀ j, j ≠ p.server.base → p.server.destroy.stack j = p.server.stack j :=
      fun j hj => Function.update_of_ne hj ..
    refine ⟨hinv, h.base, fun j => ?_, fun j f hf ch hch => ?_,
      fun hm => absurd halive (h.members hm).1, fun k hk => absurd halive (h.quits k hk).1,
      fun j hj => absurd halive (h.stopped j hj).1.1⟩
    · by_cases hj : j = p.server.base
      · subst hj
        have hzero : (p.server.stack p.server.base).countP Frame.isTeardown = 0 := by
          rw [List.countP_eq_zero]
          intro f hf
          have hconn := h.server.shape.undoomed halive f hf
          cases f with
          | destroying rest => exact absurd rfl hconn
          | _ => simp [Frame.isTeardown]
        have heq : (p.server.destroy.stack p.server.base).countP Frame.isTeardown = 1 := by
          rw [hself, List.countP_cons_of_pos rfl, hzero]
        exact le_of_eq heq
      · have hle := h.sole j
        rwa [← hother j hj] at hle
    · by_cases hj : j = p.server.base
      · subst hj
        have hf' : f ∈ .destroying p.server.connections :: p.server.stack p.server.base :=
          hself ▸ hf
        rcases List.mem_cons.mp hf' with rfl | hf'
        · rw [h.base]
          intro hp
          obtain ⟨hcurr, hactive⟩ := hx.2 rfl halive hp
          refine ⟨?_, fun heq => heq ▸ hcurr⟩
          by_cases hmem : ch ∈ (p.threads none).activeChannels
          · refine .inl (hactive ch hmem ?_)
            rcases List.mem_cons.mp hch with rfl | hch
            · exact .inl rfl
            · obtain ⟨c, hc, rfl⟩ := List.mem_map.mp hch
              exact .inr ⟨c, hc, rfl⟩
          · exact .inr hmem
        · exact h.frees _ f hf' ch hch
      · have hf' : f ∈ p.server.stack j := hother j hj ▸ hf
        exact h.frees j f hf' ch hch
  · exact h

theorem destroyPool_inv (h : p.Inv) (hr : p.server.Released) : p.destroyPool.Inv := by
  have hrest : ∀ farewells, Inv { p with farewells := farewells } :=
    fun _ => h.congr rfl rfl h.members
  unfold destroyPool
  split
  · exact h
  · next k rest hf =>
    exact (hrest rest).setThread (fun f hf ch hch => h.frees _ f hf ch hch) (fun _ _ _ => hr)
      (h.stopped (some k))
  · split
    · exact hrest _
    · exact h

theorem destroyMember_inv (h : p.Inv) {frames : List Frame}
    (hst : p.server.stack none = .destroying [] :: frames) (hr : p.server.Released)
    (m : ServerMember) (rest : List ServerMember) : Yields (p.destroyMember m rest) Inv := by
  have hrest : Inv { p with members := rest } := h.congr rfl rfl fun _ => hr
  cases m with
  | threadPool =>
    simp only [destroyMember]
    split
    · exact yields_pure.mpr hrest
    · exact yields_pure.mpr (destroyPool_inv h hr)
  | acceptor =>
    have hfrees := h.frees none (.destroying []) (hst ▸ List.mem_cons_self) .acceptor
      List.mem_cons_self
    have hremovable : (p.threads none).Removable .acceptor := fun hp => (hfrees hp).1
    simp only [destroyMember]
    rw [check_bind_of_true hremovable, check_bind_of_true fun hp => (hfrees hp).2 rfl]
    exact yields_pure.mpr hrest

theorem proceed_inv (h : p.Inv) (i : Option κ) : Yields (p.proceed i) Inv := by
  have hserve : Yields (p.serve (.proceed i)) Inv :=
    serve_inv h trivial (by simp) fun j w heq => nomatch heq
  unfold proceed
  split
  · next hst _ =>
    obtain ⟨rfl, hr⟩ := h.released hst
    exact destroyMember_inv h hst hr _ _
  · next c frames hst =>
    have hfrees := h.frees i (.removeChannel c) (hst ▸ List.mem_cons_self) (.connection c)
      List.mem_cons_self
    have hremovable : (p.threads i).Removable (.connection c) := fun hp => (hfrees hp).1
    rw [check_bind_of_true hremovable]
    exact hserve
  · exact hserve

theorem runFunctor_inv (h : p.Inv) (i : Option κ) (w : WriteResult) :
    Yields (p.runFunctor i w) Inv := by
  simp only [runFunctor]
  split
  · next hp =>
    have hthread : (p.setThread i { p.threads i with batch := (p.threads i).batch - 1 }).Inv :=
      h.setThread (fun f hf ch hch => h.frees i f hf ch hch)
        (fun k hk hq => h.quits k (hk ▸ hq)) (h.stopped i)
    refine serve_inv hthread trivial (by simp) fun j w' heq => ?_
    cases heq
    simpa [setThread] using hp.1
  · exact yields_pure.mpr h

omit [DecidableEq κ] in
/-- No method of a connection finds its loop destroyed. -/
theorem loopGone_eq (h : p.Inv) {c : ℕ} {states : List StateE} (hs : .kdisconnected ∉ states) :
    p.loopGone c states = false := by
  unfold loopGone
  split
  · next e hc =>
    by_cases hgone : (p.threads e.loop).phase = .stopped
    · have hstate := h.server.over hc ((h.stopped e.loop hgone).2 c e hc rfl)
      simp [hstate, hs]
    · simp [hgone]
  · rfl

theorem call_inv (h : p.Inv) {t : Option (Option κ)} {c line : ℕ} {states : List StateE}
    {x : ServerLabel (Option κ)} (hs : .kdisconnected ∉ states)
    (hserve : Yields (p.serve x) Inv) : Yields (p.call t c line states x) Inv := by
  unfold call
  split
  · rw [check_bind_of_true (loopGone_eq h hs)]
    exact hserve
  · exact yields_pure.mpr h

theorem serverStep_inv (h : p.Inv) {x : ServerLabel (Option κ)} (hx : p.Orderly (.server x)) :
    Yields (p.serverStep x) Inv := by
  cases x with
  | newConnection io sockfd =>
    simp only [serverStep]
    split
    · exact serve_inv h hx.1 (by simp) fun j w heq => nomatch heq
    · exact yields_pure.mpr h
  | proceed i => exact proceed_inv h i
  | runFunctor i w => exact runFunctor_inv h i w
  | handleRead c | handleWrite c =>
    simp only [serverStep]
    split
    · exact serve_inv h hx.1 (by simp) fun j w heq => nomatch heq
    · exact yields_pure.mpr h
  | send t c | shutdown t c | forceClose t c =>
    exact call_inv h (by simp) (serve_inv h hx.1 (by simp) fun j w heq => nomatch heq)
  | destroy =>
    simp only [serverStep]
    split
    · exact destroy_inv h hx
    · exact yields_pure.mpr h

theorem step_inv (p : ServerProcess κ) (x : ProcessLabel κ) (h : p.Inv) (hx : p.Orderly x) :
    Yields (p.step x) Inv := by
  cases x with
  | server x => exact serverStep_inv h hx
  | thread i a => exact yields_pure.mpr (advance_inv h i a hx)
  | quit =>
    refine yields_pure.mpr (h.setThread (fun f hf ch hch => h.frees none f hf ch hch) ?_
      (h.stopped none))
    exact fun k hk => nomatch hk
  | destroyLoop =>
    simp only [step]
    split
    · next hp =>
      have hgone : .threadPool ∉ p.members := by
        rw [hp.1]
        exact List.not_mem_nil
      exact yields_pure.mpr (h.destroyLoop (h.members hgone) hp.2.1 hx)
    · exact yields_pure.mpr h
  | threadPool =>
    simp only [step]
    split
    · exact yields_pure.mpr (h.congr rfl rfl h.members)
    · exact yields_pure.mpr h
  | dropPool => exact yields_pure.mpr (h.congr rfl rfl h.members)
  | destroyPool =>
    simp only [step]
    split
    · next hp => exact yields_pure.mpr (destroyPool_inv h (h.members hp.2))
    · exact yields_pure.mpr h

end Invariant

section Runs

/-- The connection that the server accepts in the runs below. -/
def acceptedConnection : TcpConnection :=
  { state := .kconnecting, reading := true, channel := .new 7
    writeCompleteCallback := true, highWaterMarkCallback := false
    highWaterMark := 64 * 1024 * 1024
    inputBuffer := ⟨List.replicate (Buffer.kcheapPrepend + Buffer.kinitialSize) 0,
      Buffer.kcheapPrepend, Buffer.kcheapPrepend⟩
    outputBuffer := ⟨List.replicate (Buffer.kcheapPrepend + Buffer.kinitialSize) 0,
      Buffer.kcheapPrepend, Buffer.kcheapPrepend⟩ }

theorem step_accept {p : ServerProcess Unit} (hserver : p.server = .new none true)
    (hphase : (p.threads none).phase = .handling)
    (hcurr : (p.threads none).currActiveChannel = some .acceptor) (hpool : p.pool = [()]) :
    p.step (.server (.newConnection (some ()) 7)) = .ok { p with
      server := ((TcpServer.new none true).register ⟨some (), acceptedConnection, []⟩).enqueue
        (some ()) [.connectionEstablished 1] } := by
  have hdeals : p.deals (some ()) = true := by simp [deals, hpool]
  have hserve : (TcpServer.new none true).step (.newConnection (some ()) 7) =
      .ok (((TcpServer.new none true).register ⟨some (), acceptedConnection, []⟩).enqueue
        (some ()) [.connectionEstablished 1]) := by
    simp only [TcpServer.step, TcpServer.newConnection, TcpConnection.new, Buffer.new_eq]
    rfl
  simp only [step, serverStep]
  rw [if_pos ⟨hphase, hcurr, hdeals⟩, serve, hserver, hserve]
  rfl

/-- The first connection of a server is established on its thread. -/
def opening : List (ProcessLabel Unit) :=
  [.thread none .loop, .thread none .testQuit, .thread none (.pollReturn [.acceptor]),
    .thread none .handleNext, .server (.newConnection (some ()) 7), .thread none .swap,
    .thread (some ()) .loop, .thread (some ()) .testQuit, .thread (some ()) (.pollReturn []),
    .thread (some ()) .swap, .server (.runFunctor (some ()) (.wrote 0)),
    .server (.proceed (some ())), .thread (some ()) .ran]

/-- The server goes, and its thread leaves before the connection's end has run. -/
example : ¬ Yields (run step (new [()] true) (opening ++ [.server .destroy,
    .server (.proceed none), .server (.proceed none), .thread (some ()) .testQuit])) LivesOnce := by
  rintro ⟨p, hp, -, hgone⟩
  simp only [opening, List.cons_append, List.nil_append] at hp
  rw [run_cons_of_ok rfl, run_cons_of_ok rfl, run_cons_of_ok rfl, run_cons_of_ok rfl,
    run_cons_of_ok (step_accept rfl rfl rfl rfl)] at hp
  cases hp
  exact absurd (hgone (some ()) rfl 1 _ rfl rfl) (by decide)

end Runs

end ServerProcess

end Dwater
