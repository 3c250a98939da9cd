import Dwater.Base.Format
import Dwater.Base.UtcTime

/-! # Log files

`LogFile` appends lines to a file and opens the next one when the file has grown beyond
`roll_size_` or, looking at the clock every `check_every_n_` lines, when the day has changed. The
name of a file is made of the second in which it was opened. A call comes with what
the calls of the system return in it: the results of `fwrite_unlocked` and the readings of
the clock. Each call holds the lock throughout, so that the calls run one after another.
-/

set_option autoImplicit false
namespace Dwater

open Fallible

/-- A file with the bytes that the stream has accepted. -/
structure AppendFile where
  filename : List Char
  content : List Byte
  writtenBytes : ℤ
  deriving DecidableEq, Repr

namespace AppendFile

def new (filename : List Char) : AppendFile := ⟨filename, [], 0⟩

/-- What the loop of `Append` gets into the stream, from its `k`-th call of `fwrite_unlocked` on;
`fwrite k n` is the result of that call for `n` bytes. -/
def writeRest (fwrite : ℕ → ℕ → ℕ) (k : ℕ) (rest : List Byte) : List Byte :=
  if rest.length = 0 then []
  else
    let x := min (fwrite k rest.length) rest.length
    if x = 0 then [] else rest.take x ++ writeRest fwrite (k + 1) (rest.drop x)
termination_by rest.length
decreasing_by
  simp only [List.length_drop]
  omega

def append (file : AppendFile) (fwrite : ℕ → ℕ → ℕ) (logline : List Byte) : AppendFile :=
  let n := min (fwrite 0 logline.length) logline.length
  { file with
    content := file.content ++ logline.take n ++ writeRest fwrite 1 (logline.drop n)
    writtenBytes := file.writtenBytes + logline.length }

end AppendFile

structure ProcessInfo where
  hostname : List Char
  pid : ℤ
  deriving DecidableEq, Repr

/-- A `LogFile`, with the files that it has closed and the times that `RollFile` has compared in the
last call, `now` and `last_roll_`. -/
structure LogFile where
  basename : List Char
  rollSize : ℤ
  flushInterval : ℤ
  checkEveryN : ℤ
  count : ℤ
  startOfPeriod : ℤ
  lastRoll : ℤ
  lastFlush : ℤ
  file : Option AppendFile
  closed : List AppendFile
  compared : Option (ℤ × ℤ)
  deriving DecidableEq, Repr

/-- A call of `Append`, with the results of `fwrite_unlocked` and what `time` returns in
`AppendUnlocked` and in `RollFile`, where they call it. -/
structure LogCall where
  logline : List Byte
  fwrite : ℕ → ℕ → ℕ
  periodNow : ℤ
  rollNow : ℤ

namespace LogFile

def krollPerSeconds : ℤ := 60 * 60 * 24

/-- `strftime` with `.%Y%m%d-%H%M%S.`; the buffer holds the text of every time. -/
def strftime (tm : Tm) : List Char :=
  '.' :: (formatInt (tm.tmYear + 1900) ++ formatTwo (tm.tmMon + 1) ++ formatTwo tm.tmMday ++
    '-' :: (formatTwo tm.tmHour ++ formatTwo tm.tmMin ++ formatTwo tm.tmSec ++ ['.']))

def getLogFileName (info : ProcessInfo) (basename : List Char) (now : ℤ) : List Char :=
  basename ++ strftime (gmtimeR now) ++ info.hostname ++
    snprintf 32 ('.' :: formatInt info.pid) ++ ".log".toList

def rollFile (info : ProcessInfo) (now : ℤ) (log : LogFile) : LogFile :=
  let filename := getLogFileName info log.basename now
  let start := now.tdiv krollPerSeconds * krollPerSeconds
  let log := { log with compared := some (now, log.lastRoll) }
  if now > log.lastRoll then
    { log with
      lastRoll := now
      lastFlush := now
      startOfPeriod := start
      file := some (.new filename)
      closed := log.closed ++ log.file.toList }
  else log

def new (info : ProcessInfo) (basename : List Char) (rollSize flushInterval checkEveryN now : ℤ) :
    Except Fault LogFile := do
  check ('/' ∉ basename) (.assertion .log_file_cc 32)
  return rollFile info now
    { basename, rollSize, flushInterval, checkEveryN, count := 0, startOfPeriod := 0,
      lastRoll := 0, lastFlush := 0, file := none, closed := [], compared := none }

/-- The part of `AppendUnlocked` after the line has been written to a file that is not
too long. -/
def checkPeriod (info : ProcessInfo) (x : LogCall) (log : LogFile) : LogFile :=
  let log := { log with count := log.count + 1 }
  if log.count ≥ log.checkEveryN then
    let log := { log with count := 0 }
    let now := x.periodNow
    let thisPeriod := now.tdiv krollPerSeconds * krollPerSeconds
    if thisPeriod ≠ log.startOfPeriod then rollFile info x.rollNow log
    else if now - log.lastFlush > log.flushInterval then { log with lastFlush := now }
    else log
  else log

def append (info : ProcessInfo) (log : LogFile) (x : LogCall) : Except Fault LogFile :=
  match log.file with
  | none => .error (.nullPointer .log_file_cc 58)
  | some file =>
    let file := file.append x.fwrite x.logline
    let log := { log with file := some file, compared := none }
    if file.writtenBytes > log.rollSize then .ok (rollFile info x.rollNow log)
    else .ok (checkPeriod info x log)

end LogFile

end Dwater
