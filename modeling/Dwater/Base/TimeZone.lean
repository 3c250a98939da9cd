import Dwater.Base.UtcTime
import Dwater.Lib.Search

/-! # Time zones

A time zone lists the transitions at which its offset from universal time changes, each with
the universal and the local time at which it takes place. `FindLocaltime` searches either
column for the rule that is in force, and the conversions to and from local time rest on it.
-/

set_option autoImplicit false
namespace Dwater

open Fallible

structure Transition where
  gmttime : ℤ
  localtime : ℤ
  localtimeIndex : ℤ
  deriving DecidableEq, Repr, Inhabited

structure Localtime where
  gmtOffset : ℤ
  isDst : Bool
  arrbIndex : ℤ
  deriving DecidableEq, Repr, Inhabited

structure Comp where
  compareGmt : Bool
  deriving DecidableEq, Repr

namespace Comp

/-- `operator()`. -/
def less (comp : Comp) (lhs rhs : Transition) : Bool :=
  if comp.compareGmt then lhs.gmttime < rhs.gmttime else lhs.localtime < rhs.localtime

/-- `Equal`, which is written with `<` as well. -/
def equal (comp : Comp) (lhs rhs : Transition) : Bool :=
  if comp.compareGmt then lhs.gmttime < rhs.gmttime else lhs.localtime < rhs.localtime

end Comp

structure ZoneData where
  transitions : List Transition
  localtimes : List Localtime
  abbreviation : List Char
  deriving DecidableEq, Repr

def lowerBound (transitions : List Transition) (sentry : Transition) (comp : Comp) : ℕ :=
  Search.lowerBound (fun i => comp.less (transitions.getD i default) sentry) transitions.length 0
    transitions.length

def ZoneData.localtimeAt (data : ZoneData) (index : ℤ) (line : ℕ) : Except Fault Localtime :=
  match data.localtimes[toSizeT index]? with
  | some found => .ok found
  | none => .error (.outOfBounds .time_zone_cc line)

def findLocaltime (data : ZoneData) (sentry : Transition) (comp : Comp) :
    Except Fault Localtime :=
  match data.transitions with
  | [] => data.localtimeAt 0 210
  | front :: _ =>
    if comp.less sentry front then data.localtimeAt 0 210
    else
      let iter := lowerBound data.transitions sentry comp
      match data.transitions[iter]? with
      | some found =>
        if comp.equal sentry found then data.localtimeAt found.localtimeIndex 219
        else do
          check (iter ≠ 0) (.assertion .time_zone_cc 216)
          data.localtimeAt (data.transitions.getD (iter - 1) found).localtimeIndex 219
      | none => data.localtimeAt (data.transitions.getLastD front).localtimeIndex 221

/-- A `TimeZone` with what its `data_` points to. -/
structure TimeZone where
  data : Option ZoneData
  deriving DecidableEq, Repr

namespace TimeZone

def getData (zone : TimeZone) (line : ℕ) : Except Fault ZoneData :=
  match zone.data with
  | some data => .ok data
  | none => .error (.assertion .time_zone_cc line)

/-- `&data.abbreviation[index]`, as the text that starts there. -/
def abbreviationAt (data : ZoneData) (index : ℤ) : Except Fault (List Char) :=
  if toSizeT index ≤ data.abbreviation.length then
    .ok ((data.abbreviation.drop (toSizeT index)).takeWhile (· ≠ '\x00'))
  else .error (.outOfBounds .time_zone_cc 257)

def toLocalTime (zone : TimeZone) (seconds : ℤ) : Except Fault Tm := do
  let data ← zone.getData 246
  let found ← findLocaltime data ⟨seconds, 0, 0⟩ ⟨true⟩
  let tmZone ← abbreviationAt data found.arrbIndex
  return { gmtimeR (seconds + found.gmtOffset) with
    tmIsdst := if found.isDst then 1 else 0
    tmGmtoff := found.gmtOffset
    tmZone := some tmZone }

/-- The seconds that `FromLocalTime` takes off for a time that repeats after the end of the
daylight saving time. -/
def repeatedHour (zone : TimeZone) (localtime : Tm) (seconds offset : ℤ) : Except Fault ℤ :=
  if localtime.tmIsdst ≠ 0 then do
    let tryTm ← zone.toLocalTime (seconds - offset)
    return if tryTm.tmIsdst = 0 ∧ tryTm.tmHour = localtime.tmHour ∧
      tryTm.tmMin = localtime.tmMin then 60 * 60 else 0
  else return 0

def fromLocalTime (zone : TimeZone) (localtime : Tm) : Except Fault ℤ := do
  let data ← zone.getData 264
  let seconds := timegm localtime
  let found ← findLocaltime data ⟨0, seconds, 0⟩ ⟨false⟩
  let back ← zone.repeatedHour localtime seconds found.gmtOffset
  return seconds - back - found.gmtOffset

end TimeZone

end Dwater
