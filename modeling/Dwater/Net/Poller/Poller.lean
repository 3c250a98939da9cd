import Mathlib.Logic.Function.Basic
import Dwater.Net.Channel

/-! # Pollers and the channels they watch

A poller keeps the channels registered with it by file descriptor and an index of its
own in every channel. Channels are named by `κ` and an implementation adds its own state
`P`. A channel passes every change of its interest on to its poller.
-/

set_option autoImplicit false
namespace Dwater

open Fallible

variable {κ P : Type}

structure Poller (κ P : Type) where
  channel : κ → Channel
  index : κ → ℤ
  channels : ℤ → Option κ
  impl : P

inductive ChannelOp
  | enableReading
  | disableReading
  | enableWriting
  | disableWriting
  | disableAll
  deriving DecidableEq, Repr

def ChannelOp.apply : ChannelOp → Channel → Channel
  | .enableReading => Channel.enableReading
  | .disableReading => Channel.disableReading
  | .enableWriting => Channel.enableWriting
  | .disableWriting => Channel.disableWriting
  | .disableAll => Channel.disableAll

@[simp] theorem ChannelOp.apply_fd (op : ChannelOp) (ch : Channel) : (op.apply ch).fd = ch.fd := by
  cases op <;> rfl

inductive PollerLabel (κ : Type)
  | change (c : κ) (op : ChannelOp)
  | remove (c : κ)
  deriving DecidableEq, Repr

namespace Poller

/-- No channel is registered; `index_` is `-1` in a new channel. -/
def new (fd : κ → ℕ) (impl : P) : Poller κ P :=
  { channel := fun c => .new (fd c), index := fun _ => -1, channels := fun _ => none, impl := impl }

def fd (p : Poller κ P) (c : κ) : ℤ := (p.channel c).fd

def hasChannel [DecidableEq κ] (p : Poller κ P) (c : κ) : Bool := p.channels (p.fd c) = some c

variable [DecidableEq κ]

def setChannel (p : Poller κ P) (c : κ) (ch : Channel) : Poller κ P :=
  { p with channel := Function.update p.channel c ch }

def setIndex (p : Poller κ P) (c : κ) (i : ℤ) : Poller κ P :=
  { p with index := Function.update p.index c i }

variable {p : Poller κ P} {c : κ}

@[simp] theorem setChannel_channel_self (ch : Channel) : (p.setChannel c ch).channel c = ch :=
  Function.update_self ..

theorem fd_of_update {q : Poller κ P}
    {ch : Channel} (h : q.channel = Function.update p.channel c ch)
    (hfd : ch.fd = (p.channel c).fd) (d : κ) : q.fd d = p.fd d := by
  simp only [fd, h]
  by_cases hd : d = c
  · subst hd
    rw [Function.update_self, hfd]
  · rw [Function.update_of_ne hd]

theorem setChannel_fd {ch : Channel} (h : ch.fd = (p.channel c).fd) (d : κ) :
    (p.setChannel c ch).fd d = p.fd d :=
  fd_of_update rfl h d

theorem hasChannel_iff : p.hasChannel c = true ↔ p.channels (p.fd c) = some c := by
  simp [hasChannel]

theorem hasChannel_inj (hc : p.hasChannel c = true) {d : κ} (hd : p.hasChannel d = true)
    (hfd : p.fd d = p.fd c) : d = c := by
  rw [hasChannel_iff] at hc hd
  rw [hfd, hc] at hd
  exact (Option.some.inj hd).symm

theorem hasChannel_register {q : Poller κ P} (hfd : ∀ d, q.fd d = p.fd d)
    (hq : q.channels = Function.update p.channels (p.fd c) (some c))
    (ho : ∀ d, p.hasChannel d = true → p.fd d = p.fd c → d = c) (d : κ) :
    q.hasChannel d = true ↔ p.hasChannel d = true ∨ d = c := by
  rw [hasChannel_iff, hfd, hq]
  by_cases he : p.fd d = p.fd c
  · rw [he, Function.update_self]
    constructor
    · intro hd
      exact .inr (Option.some.inj hd).symm
    · rintro (hd | rfl)
      · rw [ho d hd he]
      · rfl
  · rw [Function.update_of_ne he, hasChannel_iff, or_iff_left]
    rintro rfl
    exact he rfl

theorem hasChannel_unregister {q : Poller κ P} (hfd : ∀ d, q.fd d = p.fd d)
    (hq : q.channels = Function.update p.channels (p.fd c) none) (hc : p.hasChannel c = true)
    (d : κ) : q.hasChannel d = true ↔ p.hasChannel d = true ∧ d ≠ c := by
  rw [hasChannel_iff, hfd, hq]
  by_cases he : p.fd d = p.fd c
  · rw [he, Function.update_self]
    constructor
    · intro hd
      cases hd
    · rintro ⟨hd, hne⟩
      exact absurd (hasChannel_inj hc hd he) hne
  · rw [Function.update_of_ne he, hasChannel_iff, and_iff_left]
    rintro rfl
    exact he rfl

/--
An operation of a channel, against the poller whose two functions are given. `Remove` is called
only for a registered channel without interest.
-/
def step (updateChannel removeChannel : Poller κ P → κ → Except Fault (Poller κ P))
    (p : Poller κ P) : PollerLabel κ → Except Fault (Poller κ P)
  | .change c op => updateChannel (p.setChannel c (op.apply (p.channel c))) c
  | .remove c =>
    if p.hasChannel c = true ∧ (p.channel c).isNoneEvent = true then do
      let ch ← (p.channel c).remove
      removeChannel (p.setChannel c ch) c
    else return p

/-- A channel is registered only when no other registered channel has its file descriptor. -/
def OwnsFd (p : Poller κ P) : PollerLabel κ → Prop
  | .change c _ => ∀ d, p.hasChannel d = true → p.fd d = p.fd c → d = c
  | .remove _ => True

end Poller

end Dwater
