import Mathlib.Data.Int.Order.Basic
import Dwater.Net.Poller.Poller

/-! # The epoll poller

The index of a channel says whether it is new to the poller, in the kernel's interest list
or registered without being there. The interest list and the `epoll_ctl` calls made are part
of the state. Every call is legal and the index always tells the truth, but a channel that
is not in the list is added to it even when its interest is empty.
-/

set_option autoImplicit false
namespace Dwater

open Fallible

variable {κ : Type}

/-- An entry of the interest list: the events and `data.ptr`. -/
structure EpollEvent (κ : Type) where
  events : BitVec 32
  ptr : κ
  deriving DecidableEq, Repr

inductive EpollOperation
  | add
  | mod
  | del
  deriving DecidableEq, Repr

/-- What a successful call leaves in the interest list for its descriptor. -/
def EpollOperation.result (operation : EpollOperation) (event : EpollEvent κ) :
    Option (EpollEvent κ) :=
  match operation with
  | .add | .mod => some event
  | .del => none

/-- A call of `epoll_ctl`, with whether its descriptor was in the interest list. -/
structure EpollCtl where
  operation : EpollOperation
  fd : ℤ
  listed : Bool
  deriving DecidableEq, Repr

/-- `ADD` only if absent, `MOD` and `DEL` only if present. -/
def EpollCtl.legal (x : EpollCtl) : Bool :=
  match x.operation with
  | .add => !x.listed
  | .mod | .del => x.listed

/-- The kernel's interest list and the calls of `epoll_ctl` made so far. -/
structure EpollSet (κ : Type) where
  interest : ℤ → Option (EpollEvent κ)
  issued : List EpollCtl

abbrev EpollPoller (κ : Type) := Poller κ (EpollSet κ)

namespace EpollPoller

def knew : ℤ := -1

def kadded : ℤ := 1

def kdelete : ℤ := 2

def new (fd : κ → ℕ) : EpollPoller κ := Poller.new fd ⟨fun _ => none, []⟩

/-- `Update`: a legal `epoll_ctl` succeeds, another one changes nothing, and a failure is fatal
unless the operation is `DEL`. -/
def update (p : EpollPoller κ) (operation : EpollOperation) (c : κ) :
    Except Fault (EpollPoller κ) := do
  let fd := p.fd c
  let call : EpollCtl := ⟨operation, fd, (p.impl.interest fd).isSome⟩
  let issued := p.impl.issued ++ [call]
  if call.legal then
    let event : EpollEvent κ := ⟨(p.channel c).events, c⟩
    return { p with
      impl := ⟨Function.update p.impl.interest fd (operation.result event), issued⟩ }
  else
    check (operation = .del) (.fatal .epoll_poller_cc 148)
    return { p with impl := ⟨p.impl.interest, issued⟩ }

variable [DecidableEq κ]

def updateChannel (p : EpollPoller κ) (c : κ) : Except Fault (EpollPoller κ) := do
  let index := p.index c
  let fd := p.fd c
  if index = knew ∨ index = kdelete then
    if index = knew then
      check (p.channels fd = none) (.assertion .epoll_poller_cc 94)
    else
      check (p.channels fd ≠ none) (.assertion .epoll_poller_cc 97)
    -- the assertion of line 98 assigns to `channels_[fd]` as line 95 does
    let p := { p with channels := Function.update p.channels fd (some c) }
    update (p.setIndex c kadded) .add c
  else
    check (p.channels fd ≠ none) (.assertion .epoll_poller_cc 105)
    check (p.channels fd = some c) (.assertion .epoll_poller_cc 106)
    check (index = kadded) (.assertion .epoll_poller_cc 107)
    if (p.channel c).isNoneEvent then
      let p ← update p .del c
      return p.setIndex c kdelete
    else update p .mod c

def removeChannel (p : EpollPoller κ) (c : κ) : Except Fault (EpollPoller κ) := do
  let fd := p.fd c
  check (p.channels fd ≠ none) (.assertion .epoll_poller_cc 122)
  check (p.channels fd = some c) (.assertion .epoll_poller_cc 123)
  check ((p.channel c).isNoneEvent = true) (.assertion .epoll_poller_cc 124)
  let index := p.index c
  check (index = kadded ∨ index = kdelete) (.assertion .epoll_poller_cc 126)
  let n := if (p.channels fd).isSome then 1 else 0
  let p := { p with channels := Function.update p.channels fd none }
  check (n = 1) (.assertion .epoll_poller_cc 128)
  let p ← if index = kadded then update p .del c else pure p
  return p.setIndex c knew

def step : EpollPoller κ → PollerLabel κ → Except Fault (EpollPoller κ) :=
  Poller.step updateChannel removeChannel

/-- The channel is in the interest list, with its current events and pointing to itself. -/
def Listed (p : EpollPoller κ) (c : κ) : Prop :=
  p.impl.interest (p.fd c) = some ⟨(p.channel c).events, c⟩

/-- The interest list contains exactly the registered channels with a non-empty interest. -/
def ListsWanted (p : EpollPoller κ) : Prop :=
  ∀ key e, p.impl.interest key = some e ↔
    p.hasChannel e.ptr = true ∧ (p.channel e.ptr).isNoneEvent = false ∧ p.fd e.ptr = key ∧
      (p.channel e.ptr).events = e.events

def IssuesLegal (p : EpollPoller κ) : Prop := ∀ x ∈ p.impl.issued, x.legal = true

/-- The index says exactly where the channel is. -/
structure IndexTells (p : EpollPoller κ) : Prop where
  kadded_iff : ∀ c, p.index c = kadded ↔ p.Listed c
  kdelete_iff : ∀ c, p.index c = kdelete ↔ p.hasChannel c = true ∧ ¬ p.Listed c
  knew_iff : ∀ c, p.index c = knew ↔ p.hasChannel c = false

/-- A change leaves the interest empty only for a channel that is in the interest list. -/
def KeepsWanted (p : EpollPoller κ) : PollerLabel κ → Prop
  | .change c op => (op.apply (p.channel c)).isNoneEvent = true → p.index c = kadded
  | .remove _ => True

/-- Where the poller has the channel. -/
inductive Tag (p : EpollPoller κ) (c : κ) : Prop

  | new : p.index c = knew → p.hasChannel c = false → Tag p c

  | added : p.index c = kadded → p.hasChannel c = true → p.Listed c → Tag p c

  | deleted : p.index c = kdelete → p.hasChannel c = true → p.impl.interest (p.fd c) = none →
      (p.channel c).isNoneEvent = true → Tag p c

structure Inv (p : EpollPoller κ) : Prop where
  tag : ∀ c, p.Tag c
  channels_fd : ∀ {key c}, p.channels key = some c → p.fd c = key
  interest_ptr : ∀ {key e}, p.impl.interest key = some e → p.fd e.ptr = key ∧ p.index e.ptr = kadded
  legal : p.IssuesLegal

/-- The poller with everything that concerns `c` and its file descriptor replaced. -/
def put (p : EpollPoller κ) (c : κ) (ch : Channel) (index : ℤ) (registered : Option κ)
    (entry : Option (EpollEvent κ)) (calls : List EpollCtl) : EpollPoller κ :=
  { channel := Function.update p.channel c ch
    index := Function.update p.index c index
    channels := Function.update p.channels (p.fd c) registered
    impl := ⟨Function.update p.impl.interest (p.fd c) entry, p.impl.issued ++ calls⟩ }

/-- What an operation does when no assertion fails and every `epoll_ctl` is legal. -/
inductive Stepped (p : EpollPoller κ) : PollerLabel κ → EpollPoller κ → Prop

  | listed {c : κ} {op : ChannelOp} {call : EpollCtl} : call.legal = true →
      ((op.apply (p.channel c)).isNoneEvent = true → p.index c ≠ kadded) →
      Stepped p (.change c op) (p.put c (op.apply (p.channel c)) kadded (some c)
        (some ⟨(op.apply (p.channel c)).events, c⟩) [call])

  | deleted {c : κ} {op : ChannelOp} {call : EpollCtl} : call.legal = true →
      p.index c = kadded → (op.apply (p.channel c)).isNoneEvent = true →
      Stepped p (.change c op) (p.put c (op.apply (p.channel c)) kdelete (some c) none [call])

  | removed {c : κ} {calls : List EpollCtl} : (∀ x ∈ calls, x.legal = true) →
      p.hasChannel c = true → (p.channel c).isNoneEvent = true →
      Stepped p (.remove c)
        (p.put c { p.channel c with addedToLoop := false } knew none none calls)

  | notRemoved {c : κ} : ¬ (p.hasChannel c = true ∧ (p.channel c).isNoneEvent = true) →
      Stepped p (.remove c) p

variable {p : EpollPoller κ} {c : κ}

theorem Inv.interest_none (h : p.Inv) (hc : p.index c ≠ kadded)
    (ho : ∀ d, p.hasChannel d = true → p.fd d = p.fd c → d = c) :
    p.impl.interest (p.fd c) = none := by
  cases he : p.impl.interest (p.fd c) with
  | none => rfl
  | some e =>
    obtain ⟨hfd, hi⟩ := h.interest_ptr he
    cases h.tag e.ptr with
    | new hn _ => exact absurd (hn.symm.trans hi) (by decide)
    | deleted hd _ _ _ => exact absurd (hd.symm.trans hi) (by decide)
    | added _ hh _ => exact absurd (ho e.ptr hh hfd ▸ hi) hc

theorem Inv.channels_none (h : p.Inv) (hc : p.index c = knew)
    (ho : ∀ d, p.hasChannel d = true → p.fd d = p.fd c → d = c) :
    p.channels (p.fd c) = none := by
  cases hd : p.channels (p.fd c) with
  | none => rfl
  | some d =>
    have hfd := h.channels_fd hd
    have hh : p.hasChannel d = true := by simp [Poller.hasChannel, hfd, hd]
    obtain rfl := ho d hh hfd
    cases h.tag d with
    | new _ hf => exact absurd hh (by simp [hf])
    | added hi _ _ => exact absurd (hi.symm.trans hc) (by decide)
    | deleted hi _ _ _ => exact absurd (hi.symm.trans hc) (by decide)

omit [DecidableEq κ] in
theorem update_eq_of_legal {operation : EpollOperation} {listed : Bool}
    (hs : (p.impl.interest (p.fd c)).isSome = listed)
    (hl : EpollCtl.legal ⟨operation, p.fd c, listed⟩ = true) :
    update p operation c = .ok { p with
      impl := ⟨Function.update p.impl.interest (p.fd c)
          (operation.result ⟨(p.channel c).events, c⟩),
        p.impl.issued ++ [⟨operation, p.fd c, listed⟩]⟩ } := by
  subst hs
  unfold update
  dsimp only
  rw [if_pos hl]
  rfl

theorem updateChannel_unlisted (hi : p.index c = knew ∧ p.channels (p.fd c) = none ∨
      p.index c = kdelete ∧ p.channels (p.fd c) ≠ none)
    (hn : p.impl.interest (p.fd c) = none) :
    updateChannel p c = .ok (p.put c (p.channel c) kadded (some c)
      (some ⟨(p.channel c).events, c⟩) [⟨.add, p.fd c, false⟩]) := by
  set q : EpollPoller κ :=
    { p with channels := Function.update p.channels (p.fd c) (some c) }.setIndex c kadded with hq
  have hs : (q.impl.interest (q.fd c)).isSome = false := by
    change (p.impl.interest (p.fd c)).isSome = false
    rw [hn]
    rfl
  have hput : update q .add c = .ok (p.put c (p.channel c) kadded (some c)
      (some ⟨(p.channel c).events, c⟩) [⟨.add, p.fd c, false⟩]) := by
    rw [update_eq_of_legal hs rfl, put, Function.update_eq_self]
    rfl
  unfold updateChannel
  dsimp only
  rcases hi with ⟨hi, hc⟩ | ⟨hi, hc⟩
  · rw [if_pos (.inl hi), if_pos hi, check_bind_of_true hc]
    exact hput
  · rw [if_pos (.inr hi), if_neg (by rw [hi]; decide), check_bind_of_true hc]
    exact hput

theorem updateChannel_listed (hi : p.index c = kadded) (hc : p.channels (p.fd c) = some c)
    (hl : (p.impl.interest (p.fd c)).isSome = true) :
    updateChannel p c = .ok (if (p.channel c).isNoneEvent then
      p.put c (p.channel c) kdelete (some c) none [⟨.del, p.fd c, true⟩]
      else
      p.put c (p.channel c) kadded (some c) (some ⟨(p.channel c).events, c⟩)
        [⟨.mod, p.fd c, true⟩]) := by
  have hne : ¬ (p.index c = knew ∨ p.index c = kdelete) := by rw [hi]; decide
  have hc' : p.channels (p.fd c) ≠ none := by rw [hc]; exact Option.some_ne_none c
  have hsame : Function.update p.channels (p.fd c) (some c) = p.channels :=
    Function.update_eq_self_iff.mpr hc.symm
  unfold updateChannel
  dsimp only
  rw [if_neg hne, check_bind_of_true hc', check_bind_of_true hc, check_bind_of_true hi]
  cases hz : (p.channel c).isNoneEvent with
  | true =>
    rw [if_pos rfl, if_pos rfl, update_eq_of_legal hl rfl, put, Function.update_eq_self, hsame]
    rfl
  | false =>
    have hidx : Function.update p.index c kadded = p.index :=
      Function.update_eq_self_iff.mpr hi.symm
    rw [if_neg (by decide), if_neg (by decide), update_eq_of_legal hl rfl, put,
      Function.update_eq_self, hsame, hidx]
    rfl

theorem removeChannel_eq (hc : p.channels (p.fd c) = some c)
    (hz : (p.channel c).isNoneEvent = true)
    (hi : p.index c = kadded ∧ (p.impl.interest (p.fd c)).isSome = true ∨
      p.index c = kdelete ∧ p.impl.interest (p.fd c) = none) :
    ∃ calls : List EpollCtl, (∀ x ∈ calls, x.legal = true) ∧
      removeChannel p c = .ok (p.put c (p.channel c) knew none none calls) := by
  have hc' : p.channels (p.fd c) ≠ none := by rw [hc]; exact Option.some_ne_none c
  have hn : (if (p.channels (p.fd c)).isSome then 1 else 0) = 1 := by rw [hc]; rfl
  rcases hi with ⟨hi, hl⟩ | ⟨hi, hl⟩
  · refine ⟨[⟨.del, p.fd c, true⟩], by simp [EpollCtl.legal], ?_⟩
    set q : EpollPoller κ := { p with channels := Function.update p.channels (p.fd c) none }
    have hq : update q .del c = .ok { q with impl := ⟨Function.update p.impl.interest (p.fd c)
        none, p.impl.issued ++ [⟨.del, p.fd c, true⟩]⟩ } := update_eq_of_legal hl rfl
    unfold removeChannel
    dsimp only
    rw [check_bind_of_true hc', check_bind_of_true hc, check_bind_of_true hz,
      check_bind_of_true (.inl hi), check_bind_of_true hn, if_pos hi, hq, put,
      Function.update_eq_self]
    rfl
  · refine ⟨[], by simp, ?_⟩
    have hsame : Function.update p.impl.interest (p.fd c) none = p.impl.interest :=
      Function.update_eq_self_iff.mpr hl.symm
    unfold removeChannel
    dsimp only
    rw [check_bind_of_true hc', check_bind_of_true hc, check_bind_of_true hz,
      check_bind_of_true (.inr hi), check_bind_of_true hn, if_neg (by rw [hi]; decide), put,
      List.append_nil, hsame, Function.update_eq_self]
    rfl

theorem put_setChannel {ch ch' : Channel} {i : ℤ} {r : Option κ} {e : Option (EpollEvent κ)}
    {calls : List EpollCtl} (h : ch.fd = (p.channel c).fd) :
    put (p.setChannel c ch) c ch' i r e calls = p.put c ch' i r e calls := by
  have hfd : (p.setChannel c ch).fd c = p.fd c := Poller.setChannel_fd h c
  rw [put, hfd]
  simp only [put, Poller.setChannel, Function.update_idem]

theorem Inv.registered (h : p.Inv) (hc : p.hasChannel c = true) :
    p.index c = kadded ∧ p.Listed c ∨ p.index c = kdelete ∧ p.impl.interest (p.fd c) = none := by
  cases h.tag c with
  | new _ hf => exact absurd hc (by simp [hf])
  | added hi _ hl => exact .inl ⟨hi, hl⟩
  | deleted hi _ hl _ => exact .inr ⟨hi, hl⟩

/-- Under the invariant an operation fails no assertion and makes legal calls only. -/
theorem step_stepped (h : p.Inv) {x : PollerLabel κ} (ho : p.OwnsFd x) :
    Yields (p.step x) (p.Stepped x) := by
  cases x with
  | change c op =>
    set q : EpollPoller κ := p.setChannel c (op.apply (p.channel c)) with hq
    have hfd : q.fd c = p.fd c := Poller.setChannel_fd (op.apply_fd _) c
    have hch : q.channel c = op.apply (p.channel c) := Poller.setChannel_channel_self _
    have hunlisted (hne : p.index c ≠ kadded) (hi : p.index c = knew ∧ p.channels (p.fd c) = none ∨
        p.index c = kdelete ∧ p.channels (p.fd c) ≠ none) :
        Yields (p.step (.change c op)) (p.Stepped (.change c op)) := by
      refine ⟨_, updateChannel_unlisted (p := q) (by rw [hfd]; exact hi)
        (by rw [hfd]; exact h.interest_none hne ho), ?_⟩
      rw [hch, hq, put_setChannel (op.apply_fd _)]
      exact .listed rfl fun _ => hne
    cases h.tag c with
    | new hi _ =>
      exact hunlisted (by rw [hi]; decide) (.inl ⟨hi, h.channels_none hi ho⟩)
    | deleted hi hc _ _ =>
      have hreg : p.channels (p.fd c) = some c := Poller.hasChannel_iff.mp hc
      exact hunlisted (by rw [hi]; decide) (.inr ⟨hi, by rw [hreg]; exact Option.some_ne_none c⟩)
    | added hi hc hl =>
      have hreg : p.channels (p.fd c) = some c := Poller.hasChannel_iff.mp hc
      have hsome : (p.impl.interest (p.fd c)).isSome = true := by rw [hl]; rfl
      refine ⟨_, updateChannel_listed (p := q) hi (by rw [hfd]; exact hreg)
        (by rw [hfd]; exact hsome), ?_⟩
      rw [hch, hq]
      split
      · next hz =>
        rw [put_setChannel (op.apply_fd _)]
        exact .deleted rfl hi hz
      · next hz =>
        rw [put_setChannel (op.apply_fd _)]
        exact .listed rfl fun hz' => absurd hz' hz
  | remove c =>
    simp only [step, Poller.step]
    split
    · next hg =>
      obtain ⟨hc, hz⟩ := hg
      set q : EpollPoller κ := p.setChannel c { p.channel c with addedToLoop := false } with hq
      have hfd : q.fd c = p.fd c := Poller.setChannel_fd (p := p) (by rfl) c
      have hch : q.channel c = { p.channel c with addedToLoop := false } :=
        Poller.setChannel_channel_self _
      have hi : p.index c = kadded ∧ (p.impl.interest (p.fd c)).isSome = true ∨
          p.index c = kdelete ∧ p.impl.interest (p.fd c) = none := by
        rcases h.registered hc with ⟨hi, hl⟩ | hi
        · exact .inl ⟨hi, by rw [hl]; rfl⟩
        · exact .inr hi
      obtain ⟨calls, hlegal, heq⟩ := removeChannel_eq (p := q) (c := c)
        (by rw [hfd]; exact Poller.hasChannel_iff.mp hc) (by rw [hch]; exact hz)
        (by rw [hfd]; exact hi)
      rw [Channel.remove, check_bind_of_true hz]
      refine ⟨_, heq, ?_⟩
      rw [hch, hq, put_setChannel (by rfl)]
      exact .removed hlegal hc hz
    · next hg => exact yields_pure.mpr (.notRemoved hg)

/-- What an operation on `c` leaves alone: the other channels and the other descriptors. -/
structure Frame (p : EpollPoller κ) (c : κ) (q : EpollPoller κ) : Prop where
  fd_eq : ∀ d, q.fd d = p.fd d
  channel_eq : ∀ d, d ≠ c → q.channel d = p.channel d
  index_eq : ∀ d, d ≠ c → q.index d = p.index d
  channels_eq : ∀ key, key ≠ p.fd c → q.channels key = p.channels key
  interest_eq : ∀ key, key ≠ p.fd c → q.impl.interest key = p.impl.interest key
  channels_self : ∀ d, q.channels (p.fd c) = some d → d = c

theorem Tag.frame {q : EpollPoller κ} {d : κ} (hf : p.Frame c q) (hd : d ≠ c)
    (ho : p.hasChannel d = true → p.fd d = p.fd c → d = c) (ht : p.Tag d) : q.Tag d := by
  have hfd : p.hasChannel d = true → p.fd d ≠ p.fd c := fun hh he => hd (ho hh he)
  have hhas : q.hasChannel d = p.hasChannel d := by
    simp only [Poller.hasChannel, hf.fd_eq]
    by_cases he : p.fd d = p.fd c
    · have hp : p.channels (p.fd d) ≠ some d := by
        intro hs
        exact hd (ho (by simpa [Poller.hasChannel] using hs) he)
      have hq : q.channels (p.fd d) ≠ some d := by
        intro hs
        exact hd (hf.channels_self d (he ▸ hs))
      simp [hp, hq]
    · rw [hf.channels_eq _ he]
  cases ht with
  | new hi hn => exact .new ((hf.index_eq d hd).trans hi) (hhas.trans hn)
  | added hi hh hl =>
    refine .added ((hf.index_eq d hd).trans hi) (hhas.trans hh) ?_
    rw [Listed, hf.fd_eq, hf.interest_eq _ (hfd hh), hf.channel_eq d hd]
    exact hl
  | deleted hi hh hl hz =>
    refine .deleted ((hf.index_eq d hd).trans hi) (hhas.trans hh) ?_ ?_
    · rw [hf.fd_eq, hf.interest_eq _ (hfd hh)]
      exact hl
    · rw [hf.channel_eq d hd]
      exact hz

/-- An operation on `c` keeps the invariant when it leaves `c` itself well placed. -/
theorem Inv.frame {q : EpollPoller κ} (h : p.Inv) (hf : p.Frame c q)
    (ho : ∀ d, p.hasChannel d = true → p.fd d = p.fd c → d = c) (ht : q.Tag c)
    (he : ∀ e, q.impl.interest (p.fd c) = some e → e.ptr = c ∧ q.index c = kadded)
    (hl : q.IssuesLegal) : q.Inv := by
  refine ⟨?_, ?_, ?_, hl⟩
  · intro d
    by_cases hd : d = c
    · exact hd ▸ ht
    · exact (h.tag d).frame hf hd (ho d)
  · intro key d hk
    rw [hf.fd_eq]
    by_cases hkey : key = p.fd c
    · subst hkey
      rw [hf.channels_self d hk]
    · exact h.channels_fd (hf.channels_eq key hkey ▸ hk)
  · intro key e hk
    rw [hf.fd_eq]
    by_cases hkey : key = p.fd c
    · subst hkey
      obtain ⟨hptr, hi⟩ := he e hk
      exact ⟨by rw [hptr], hptr ▸ hi⟩
    · obtain ⟨hfd, hi⟩ := h.interest_ptr (hf.interest_eq key hkey ▸ hk)
      have hne : e.ptr ≠ c := fun hp => hkey (hp ▸ hfd.symm)
      exact ⟨hfd, (hf.index_eq _ hne).trans hi⟩

omit [DecidableEq κ] in
theorem issuesLegal_append (h : p.IssuesLegal) {calls : List EpollCtl}
    (hc : ∀ x ∈ calls, x.legal = true) : ∀ x ∈ p.impl.issued ++ calls, x.legal = true := by
  intro x hx
  rcases List.mem_append.mp hx with hx | hx
  · exact h x hx
  · exact hc x hx

section Put

variable {ch : Channel} {i : ℤ} {r : Option κ} {e : Option (EpollEvent κ)} {calls : List EpollCtl}

@[simp] theorem put_channel_self : (p.put c ch i r e calls).channel c = ch :=
  Function.update_self ..

@[simp] theorem put_index_self : (p.put c ch i r e calls).index c = i :=
  Function.update_self ..

@[simp] theorem put_channels_self : (p.put c ch i r e calls).channels (p.fd c) = r :=
  Function.update_self (p.fd c) ..

theorem put_fd (hfd : ch.fd = (p.channel c).fd) (d : κ) :
    (p.put c ch i r e calls).fd d = p.fd d :=
  Poller.fd_of_update rfl hfd d

@[simp] theorem put_interest_self : (p.put c ch i r e calls).impl.interest (p.fd c) = e :=
  Function.update_self (p.fd c) ..

theorem put_frame (hfd : ch.fd = (p.channel c).fd) (hr : ∀ d, r = some d → d = c) :
    p.Frame c (p.put c ch i r e calls) where
  fd_eq := put_fd hfd
  channel_eq _ hd := Function.update_of_ne hd ..
  index_eq _ hd := Function.update_of_ne hd ..
  channels_eq _ hk := Function.update_of_ne hk ..
  interest_eq _ hk := Function.update_of_ne hk ..
  channels_self d hd := hr d (put_channels_self.symm.trans hd)

theorem Inv.put (h : p.Inv) (ho : ∀ d, p.hasChannel d = true → p.fd d = p.fd c → d = c)
    (hfd : ch.fd = (p.channel c).fd) (hr : ∀ d, r = some d → d = c)
    (ht : (p.put c ch i r e calls).Tag c) (he : ∀ x, e = some x → x.ptr = c ∧ i = kadded)
    (hl : ∀ x ∈ calls, x.legal = true) : (p.put c ch i r e calls).Inv := by
  refine h.frame (put_frame hfd hr) ho ht ?_ (issuesLegal_append h.legal hl)
  intro x hx
  rw [put_interest_self] at hx
  obtain ⟨hptr, hi⟩ := he x hx
  exact ⟨hptr, put_index_self.trans hi⟩

end Put

theorem Stepped.inv {x : PollerLabel κ} {q : EpollPoller κ} (h : p.Inv) (ho : p.OwnsFd x)
    (hs : p.Stepped x q) : q.Inv := by
  cases hs with
  | @listed c op call hl _ =>
    refine h.put ho (op.apply_fd _) (by simp) (.added put_index_self ?_ ?_) (by simp)
      (by simpa using hl)
    · rw [Poller.hasChannel_iff, put_fd (op.apply_fd _), put_channels_self]
    · rw [Listed, put_fd (op.apply_fd _), put_interest_self, put_channel_self]
  | @deleted c op call hl hi hz =>
    refine h.put ho (op.apply_fd _) (by simp) (.deleted put_index_self ?_ ?_ ?_)
      (by simp) (by simpa using hl)
    · rw [Poller.hasChannel_iff, put_fd (op.apply_fd _), put_channels_self]
    · rw [put_fd (op.apply_fd _), put_interest_self]
    · rw [put_channel_self]
      exact hz
  | @removed c calls hl hc hz =>
    refine h.put (fun d => Poller.hasChannel_inj hc) rfl (by simp) (.new put_index_self ?_)
      (by simp) hl
    rw [Bool.eq_false_iff, Ne, Poller.hasChannel_iff, put_fd (by rfl), put_channels_self]
    exact Option.some_ne_none c ∘ Eq.symm
  | notRemoved _ => exact h

theorem new_inv (fd : κ → ℕ) : (new fd).Inv where
  tag c := .new rfl (by simp [Poller.hasChannel, new, Poller.new])
  channels_fd := by simp [new, Poller.new]
  interest_ptr := by simp [new, Poller.new]
  legal := by simp [IssuesLegal, new, Poller.new]

/-- Every channel in the interest list has a non-empty interest. -/
def Wanting (p : EpollPoller κ) : Prop :=
  ∀ c, p.index c = kadded → (p.channel c).isNoneEvent = false

theorem Wanting.put {ch : Channel} {i : ℤ} {r : Option κ} {e : Option (EpollEvent κ)}
    {calls : List EpollCtl} (h : p.Wanting) (hc : i = kadded → ch.isNoneEvent = false) :
    (p.put c ch i r e calls).Wanting := by
  intro d hd
  by_cases hdc : d = c
  · subst hdc
    rw [put_index_self] at hd
    rw [put_channel_self]
    exact hc hd
  · have hi : (p.put c ch i r e calls).index d = p.index d := Function.update_of_ne hdc ..
    have hch : (p.put c ch i r e calls).channel d = p.channel d := Function.update_of_ne hdc ..
    rw [hch]
    exact h d (hi.symm.trans hd)

theorem Stepped.wanting {x : PollerLabel κ} {q : EpollPoller κ} (h : p.Wanting)
    (hk : p.KeepsWanted x) (hs : p.Stepped x q) : q.Wanting := by
  cases hs with
  | @listed c op call _ hne =>
    refine h.put fun _ => Bool.eq_false_iff.mpr ?_
    intro hz
    exact hne hz (hk hz)
  | @deleted c op call _ hi hz => exact h.put fun hi => absurd hi (by decide)
  | @removed c calls _ hc hz => exact h.put fun hi => absurd hi (by decide)
  | notRemoved _ => exact h

theorem Inv.indexTells (h : p.Inv) : p.IndexTells := by
  have hadded (c : κ) : p.index c = kadded ↔ p.Listed c := by
    constructor
    · intro hi
      cases h.tag c with
      | new hn _ => exact absurd (hn.symm.trans hi) (by decide)
      | added _ _ hl => exact hl
      | deleted hd _ _ _ => exact absurd (hd.symm.trans hi) (by decide)
    · intro hl
      exact (h.interest_ptr hl).2
  refine ⟨hadded, ?_, ?_⟩
  · intro c
    rw [← hadded]
    cases h.tag c with
    | new hi hn => simp [hi, hn, knew, kdelete]
    | added hi _ _ => simp [hi, kadded, kdelete]
    | deleted hi hh _ _ => simp [hi, hh, kadded, kdelete]
  · intro c
    cases h.tag c with
    | new hi hn => simp [hi, hn]
    | added hi hh _ => simp [hi, hh, knew, kadded]
    | deleted hi hh _ _ => simp [hi, hh, knew, kdelete]

theorem Inv.listsWanted (h : p.Inv) (hw : p.Wanting) : p.ListsWanted := by
  rintro key ⟨events, c⟩
  constructor
  · intro he
    obtain ⟨hfd, hi⟩ := h.interest_ptr he
    cases h.tag c with
    | new hn _ => exact absurd (hn.symm.trans hi) (by decide)
    | deleted hd _ _ _ => exact absurd (hd.symm.trans hi) (by decide)
    | added _ hh hl =>
      rw [Listed, hfd, he] at hl
      injection hl with hl
      injection hl with hl
      exact ⟨hh, hw c hi, hfd, hl.symm⟩
  · rintro ⟨hh, hz, hfd, hev⟩
    cases h.tag c with
    | new _ hn => exact absurd hh (by simp [hn])
    | deleted _ _ _ hz' => exact absurd hz' (by simp [hz])
    | added _ _ hl =>
      rw [Listed, hfd, hev] at hl
      exact hl

/-- What the poller is for: the interest list holds the wanted channels, and the indices and calls
are right. -/
def Exact (p : EpollPoller κ) : Prop := p.ListsWanted ∧ p.IssuesLegal ∧ p.IndexTells

theorem step_good (p : EpollPoller κ) (x : PollerLabel κ) (h : p.Inv ∧ p.Wanting)
    (ho : p.OwnsFd x) (hk : p.KeepsWanted x) : Yields (p.step x) fun q => q.Inv ∧ q.Wanting :=
  (step_stepped h.1 ho).mono fun _ hs => ⟨hs.inv h.1 ho, hs.wanting h.2 hk⟩

/-- A change to an empty interest outside the interest list puts the channel there. -/
theorem step_bad (p : EpollPoller κ) (x : PollerLabel κ) (h : p.Inv ∧ p.Wanting)
    (ho : p.OwnsFd x) (hk : ¬ p.KeepsWanted x) : ¬ Yields (p.step x) Exact := by
  rintro ⟨q, hq, hex⟩
  have hs := (step_stepped h.1 ho).of_eq hq
  cases hs with
  | @listed c op call _ _ =>
    obtain ⟨hz, _⟩ := Classical.not_imp.mp hk
    have hlisted : (p.put c (op.apply (p.channel c)) kadded (some c)
        (some ⟨(op.apply (p.channel c)).events, c⟩) [call]).impl.interest (p.fd c) =
          some ⟨(op.apply (p.channel c)).events, c⟩ := put_interest_self
    have hwanted := ((hex.1 _ _).mp hlisted).2.1
    rw [put_channel_self, hz] at hwanted
    cases hwanted
  | deleted _ hi _ => exact hk fun _ => hi
  | removed => exact hk trivial
  | notRemoved => exact hk trivial

/-- The interest list holds exactly the wanted channels after every operation of a sequence exactly
when no change leaves the interest of a channel outside that list empty. -/
theorem interest_list_exact_iff (fd : κ → ℕ) (labels : List (PollerLabel κ))
    (h : Along step Poller.OwnsFd (new fd) labels) :
    (∀ n, Yields (run step (new fd) (labels.take n)) Exact) ↔
      Along step KeepsWanted (new fd) labels := by
  have hnew : (new fd).Wanting := by
    intro c hi
    exact absurd (show knew = kadded from hi) (by decide)
  refine run_take_iff step_good step_bad ?_ ⟨new_inv fd, hnew⟩ h
  rintro p ⟨hp, hw⟩
  exact ⟨hp.listsWanted hw, hp.legal, hp.indexTells⟩

/-- A channel that stops reading and is then removed. -/
theorem interest_list_exact_stopped :
    Yields (run step (new fun _ : Unit => 5)
      [.change () .enableReading, .change () .disableAll, .remove ()]) Exact := by
  refine (interest_list_exact_iff (fun _ : Unit => 5)
    [.change () .enableReading, .change () .disableAll, .remove ()] ?_).mpr ?_ 3
  · refine along_cons (fun _ _ _ => rfl) rfl (along_cons (fun _ _ _ => rfl) rfl ?_)
    exact along_cons trivial rfl trivial
  · refine along_cons (fun hz => absurd hz (by decide)) rfl (along_cons (fun _ => rfl) rfl ?_)
    exact along_cons trivial rfl trivial

/-- `DisableAll` after `DisableAll`, as when a connection that stopped reading is closed, puts the
channel into the interest list without events. -/
theorem unwanted_channel_listed :
    ¬ Yields (run step (new fun _ : Unit => 5)
      [.change () .enableReading, .change () .disableReading, .change () .disableAll])
      ListsWanted := by
  rintro ⟨p, hs, hw⟩
  cases hs
  have hlisted := (hw 5 ⟨0, ()⟩).mp rfl
  exact absurd hlisted.2.1 (by decide)

end EpollPoller

end Dwater
