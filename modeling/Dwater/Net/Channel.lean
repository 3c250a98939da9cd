import Dwater.Base.Types

/-! # Channels

A channel keeps the set of events its owner waits for as a bit mask and hands every
change to the poller of its loop.
-/

set_option autoImplicit false
namespace Dwater

open Fallible

def pollin : BitVec 32 := 0x001

def pollpri : BitVec 32 := 0x002

def pollout : BitVec 32 := 0x004

structure Channel where
  fd : ℕ
  events : BitVec 32
  tied : Bool
  addedToLoop : Bool
  deriving DecidableEq, Repr

namespace Channel

def knoneEvent : BitVec 32 := 0

def kreadEvent : BitVec 32 := pollin ||| pollpri

def kwriteEvent : BitVec 32 := pollout

def new (fd : ℕ) : Channel := ⟨fd, 0, false, false⟩

def tie (c : Channel) : Channel := { c with tied := true }

def isNoneEvent (c : Channel) : Bool := c.events = knoneEvent

def isWriting (c : Channel) : Bool := c.events &&& kwriteEvent ≠ 0

def isReading (c : Channel) : Bool := c.events &&& kreadEvent ≠ 0

def update (c : Channel) : Channel := { c with addedToLoop := true }

def enableReading (c : Channel) : Channel := { c with events := c.events ||| kreadEvent }.update

def disableReading (c : Channel) : Channel := { c with events := c.events &&& ~~~kreadEvent }.update

def enableWriting (c : Channel) : Channel := { c with events := c.events ||| kwriteEvent }.update

def disableWriting (c : Channel) : Channel :=
  { c with events := c.events &&& ~~~kwriteEvent }.update

def disableAll (c : Channel) : Channel := { c with events := knoneEvent }.update

def remove (c : Channel) : Except Fault Channel := do
  check (c.isNoneEvent = true) (.assertion .channel_cc 54)
  return { c with addedToLoop := false }

variable (c : Channel)

@[simp] theorem isWriting_enableWriting : c.enableWriting.isWriting = true := by
  have h : (c.events ||| kwriteEvent) &&& kwriteEvent = kwriteEvent := by
    ext i hi; simp only [BitVec.getElem_and, BitVec.getElem_or]; grind
  have hne : kwriteEvent ≠ 0 := by decide
  simp only [isWriting, enableWriting, update, h, hne, ne_eq, not_false_eq_true, decide_true]

@[simp] theorem isWriting_disableWriting : c.disableWriting.isWriting = false := by
  have h : c.events &&& ~~~kwriteEvent &&& kwriteEvent = 0 := by
    ext i hi; simp only [BitVec.getElem_and, BitVec.getElem_not]; simp
  simp [isWriting, disableWriting, update, h]

@[simp] theorem isWriting_enableReading : c.enableReading.isWriting = c.isWriting := by
  have h : (c.events ||| kreadEvent) &&& kwriteEvent = c.events &&& kwriteEvent := by
    have hz : kreadEvent &&& kwriteEvent = 0#32 := by decide
    rw [BitVec.and_or_distrib_right, hz, BitVec.or_zero]
  simp [isWriting, enableReading, update, h]

@[simp] theorem isWriting_disableReading : c.disableReading.isWriting = c.isWriting := by
  have h : c.events &&& ~~~kreadEvent &&& kwriteEvent = c.events &&& kwriteEvent := by
    have hz : ~~~kreadEvent &&& kwriteEvent = kwriteEvent := by decide
    rw [BitVec.and_assoc, hz]
  simp [isWriting, disableReading, update, h]

@[simp] theorem isReading_enableWriting : c.enableWriting.isReading = c.isReading := by
  have h : (c.events ||| kwriteEvent) &&& kreadEvent = c.events &&& kreadEvent := by
    have hz : kwriteEvent &&& kreadEvent = 0#32 := by decide
    rw [BitVec.and_or_distrib_right, hz, BitVec.or_zero]
  simp [isReading, enableWriting, update, h]

@[simp] theorem isReading_disableWriting : c.disableWriting.isReading = c.isReading := by
  have h : c.events &&& ~~~kwriteEvent &&& kreadEvent = c.events &&& kreadEvent := by
    have hz : ~~~kwriteEvent &&& kreadEvent = kreadEvent := by decide
    rw [BitVec.and_assoc, hz]
  simp [isReading, disableWriting, update, h]

@[simp] theorem isNoneEvent_disableAll : c.disableAll.isNoneEvent = true := by
  simp [isNoneEvent, disableAll, update]

theorem isNoneEvent_disableReading (h : c.isNoneEvent = true) :
    c.disableReading.isNoneEvent = true := by
  have he : c.events = knoneEvent := by simpa [isNoneEvent] using h
  simp [isNoneEvent, disableReading, update, he, knoneEvent]

theorem isReading_of_isNoneEvent (h : c.isNoneEvent = true) : c.isReading = false := by
  have he : c.events = knoneEvent := by simpa [isNoneEvent] using h
  simp [isReading, he, knoneEvent]

theorem isWriting_of_isNoneEvent (h : c.isNoneEvent = true) : c.isWriting = false := by
  have he : c.events = knoneEvent := by simpa [isNoneEvent] using h
  simp [isWriting, he, knoneEvent]

end Channel

end Dwater
