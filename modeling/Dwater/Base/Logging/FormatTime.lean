import Dwater.Base.Timestamp
import Dwater.Base.ZoneFile
import Dwater.Base.Logging.LogStream
import Dwater.Base.Logging.Rolling

/-! # The time of a log record

`FormatTime` writes the second of a record and its microseconds in front of it. The text
of the second is kept for the following records of the thread, and the lengths of both
texts are checked. They are the lengths for a zone that is not valid; `SetTimeZone` may
set another one between two records.
-/

set_option autoImplicit false
namespace Dwater

open Fallible

def kSmallBuffer : ℕ := 4000

abbrev LogBuffer := FixedBuffer kSmallBuffer

namespace Logger

/-- `t_last_second` and the text in `t_time`. -/
structure TimeCache where
  lastSecond : ℤ
  text : List Char
  deriving DecidableEq, Repr

def TimeCache.new : TimeCache := ⟨0, []⟩

/-- `operator<<` for a `T`, whose constructor compares the length. -/
def insertT (b : LogBuffer) (str : List Char) (len : ℕ) : Except Fault LogBuffer := do
  check (str.length = len) (.assertion .logging_cc 53)
  b.insert (.append (ascii str))

/-- `%4d%02d%02d %02d:%02d:%02d`. -/
def formatSecond (tm : Tm) : List Char :=
  formatPadded ' ' 4 (tm.tmYear + 1900) ++ formatTwo (tm.tmMon + 1) ++ formatTwo tm.tmMday ++
    ' ' :: (formatTwo tm.tmHour ++ ':' :: (formatTwo tm.tmMin ++ ':' :: formatTwo tm.tmSec))

/-- `Format` with `.%06dZ `. -/
def formatMicros (microSeconds : ℤ) : Except Fault (List Char) := do
  let text := '.' :: (formatPadded '0' 6 microSeconds ++ ['Z', ' '])
  check (text.length < 32) (.assertion .log_stream_cc 268)
  return text

def TimeCache.refresh (zone : TimeZone) (cache : TimeCache) (seconds : ℤ) :
    Except Fault TimeCache :=
  if seconds ≠ cache.lastSecond then do
    let tmTime ← if zone.valid then zone.toLocalTime seconds else pure (gmtimeR seconds)
    let text := formatSecond tmTime
    check (text.length = 17) (.assertion .logging_cc 117)
    return ⟨seconds, snprintf 64 text⟩
  else return cache

def formatTime (zone : TimeZone) (cache : TimeCache) (time : Timestamp) (stream : LogBuffer) :
    Except Fault (TimeCache × LogBuffer) := do
  let seconds := time.micros.tdiv Timestamp.kmicroSecondsPerSecond.toInt
  let microSeconds := castInt (time.micros.tmod Timestamp.kmicroSecondsPerSecond.toInt)
  let cache ← cache.refresh zone seconds
  if zone.valid then
    let us ← formatMicros microSeconds
    check (us.length = 8) (.assertion .logging_cc 121)
    let stream ← insertT stream cache.text 17
    let stream ← insertT stream us 8
    return (cache, stream)
  else
    let us ← formatMicros microSeconds
    check (us.length = 9) (.assertion .logging_cc 125)
    let stream ← insertT stream cache.text 17
    let stream ← insertT stream us 9
    return (cache, stream)

def second (t : Timestamp) : ℤ := t.micros / 1000000

/-- A time of a record: not before the epoch, and before the year 10000. -/
abbrev RecordTime :=
  { t : Timestamp // 0 ≤ t.micros ∧ (gmtimeR (second t)).tmYear + 1900 ≤ 9999 }

/-- The broken-down time of a second in the time zone that is in force. -/
def brokenDown (zone : TimeZone) (seconds : ℤ) : Except Fault Tm :=
  if zone.valid then zone.toLocalTime seconds else .ok (gmtimeR seconds)

/-- `YYYYMMDD HH:MM:SS`. -/
def secondText (tm : Tm) : List Char :=
  formatPadded '0' 4 (tm.tmYear + 1900) ++ formatPadded '0' 2 (tm.tmMon + 1) ++
    formatPadded '0' 2 tm.tmMday ++ ' ' :: (formatPadded '0' 2 tm.tmHour ++
    ':' :: (formatPadded '0' 2 tm.tmMin ++ ':' :: formatPadded '0' 2 tm.tmSec))

/-- What follows the microseconds, of two characters in universal time and of one otherwise. -/
def zoneSuffix (zone : TimeZone) : List Char := if zone.valid then [' '] else ['Z', ' ']

def uncachedText (zone : TimeZone) (time : Timestamp) : Except Fault (List Char) :=
  (fun tm => secondText tm ++ '.' :: (formatPadded '0' 6 (time.micros % 1000000) ++
    zoneSuffix zone)) <$> brokenDown zone (second time)

/-- A record, with the time zone that was in force and what `FormatTime` wrote. -/
structure TimeRecord where
  time : RecordTime
  zone : TimeZone
  text : List Byte

/-- `g_log_timezone`, the cache of a thread and the records it has made. -/
structure LogThread where
  zone : TimeZone
  cache : TimeCache
  records : List TimeRecord

def LogThread.new : LogThread := ⟨⟨none⟩, .new, []⟩

inductive LogLabel
  | setTimeZone (zone : TimeZone)
  | record (time : RecordTime)

namespace LogThread

def step (s : LogThread) : LogLabel → Except Fault LogThread
  | .setTimeZone zone => return { s with zone := zone }
  | .record time => do
    let (cache, stream) ← formatTime s.zone s.cache time FixedBuffer.new
    return { s with
      cache := cache
      records := s.records ++ [⟨time, s.zone, stream.content⟩] }

/-- Every record begins with the text of its own second in the zone in force. -/
def Exact (s : LogThread) : Prop :=
  ∀ r ∈ s.records, ∃ text, uncachedText r.zone r.time = .ok text ∧ r.text = ascii text

/-- A record is made while no valid time zone is set, and the first one not in second 0. -/
def Formattable (s : LogThread) : LogLabel → Prop
  | .setTimeZone _ => True
  | .record time => s.zone.valid = false ∧ (s.records = [] → second time ≠ 0)

end LogThread

section Text

variable {tm : Tm}

/-- The year fills its four places, so that it does not matter what they are padded with. -/
theorem formatSecond_eq (h : Fields tm) : formatSecond tm = secondText tm := by
  have hyear := length_formatInt h.year.1 h.year.2
  rw [formatSecond, secondText, formatPadded_of_le hyear.ge, formatPadded_of_le hyear.ge,
    formatTwo_eq h.mon.1, formatTwo_eq h.mday.1, formatTwo_eq h.hour.1, formatTwo_eq h.min.1,
    formatTwo_eq h.sec.1]

theorem length_secondText (h : Fields tm) : (secondText tm).length = 17 := by
  have hyear : (formatPadded '0' 4 (tm.tmYear + 1900)).length = 4 :=
    length_formatPadded (by linarith [h.year.1]) (by decide) (by linarith [h.year.2])
  have htwo {n : ℤ} (hn : 0 ≤ n ∧ n < 100) : (formatPadded '0' 2 n).length = 2 :=
    length_formatPadded hn.1 (by decide) (by linarith [hn.2])
  simp only [secondText, List.length_append, List.length_cons, hyear, htwo h.mon, htwo h.mday,
    htwo h.hour, htwo h.min, htwo h.sec]

theorem length_formatMicros (time : Timestamp) :
    ('.' :: (formatPadded '0' 6 (time.micros % 1000000) ++ ['Z', ' '])).length = 9 := by
  have hsix : (formatPadded '0' 6 (time.micros % 1000000)).length = 6 :=
    length_formatPadded (Int.emod_nonneg _ (by decide)) (by decide)
      (Int.emod_lt_of_pos _ (by decide))
  rw [List.length_cons, List.length_append, hsix]
  rfl

theorem formatMicros_eq (time : Timestamp) : formatMicros (time.micros % 1000000) =
    .ok ('.' :: (formatPadded '0' 6 (time.micros % 1000000) ++ ['Z', ' '])) := by
  have hlen := length_formatMicros time
  rw [formatMicros, check_bind_of_true (by omega)]
  rfl

end Text

theorem length_ascii (cs : List Char) : (ascii cs).length = cs.length := List.length_map ..

theorem insertT_eq {b : LogBuffer} {str : List Char} {len : ℕ} (h : str.length = len)
    (hfit : b.content.length + len < kSmallBuffer) :
    Yields (insertT b str len) fun b' => b'.content = b.content ++ ascii str := by
  have hlen := length_ascii str
  have hroom : (b.content ++ ascii str).length ≤ kSmallBuffer := by
    rw [List.length_append]
    omega
  rw [insertT, check_bind_of_true h, FixedBuffer.insert, b.append_eq (by omega) hroom]
  exact yields_ok.mpr rfl

section Time

variable {zone : TimeZone} {cache : TimeCache}

theorem micros_split (time : RecordTime) :
    time.val.micros.tdiv Timestamp.kmicroSecondsPerSecond.toInt = second time ∧
      castInt (time.val.micros.tmod Timestamp.kmicroSecondsPerSecond.toInt) =
        time.val.micros % 1000000 := by
  have hk : Timestamp.kmicroSecondsPerSecond.toInt = 1000000 := by decide
  have hpos := time.property.1
  rw [hk, Int.tdiv_eq_ediv_of_nonneg hpos, Int.tmod_eq_emod_of_nonneg hpos]
  exact ⟨rfl, TimeZone.castInt_of_fits (by omega) (by omega)⟩

theorem RecordTime.fields (time : RecordTime) : Fields (gmtimeR (second time)) := by
  have hpos := time.property.1
  exact fields_gmtimeR (Int.ediv_nonneg hpos (by decide)) time.property.2

def TimeCache.Holds (cache : TimeCache) : Prop :=
  cache.text = secondText (gmtimeR cache.lastSecond)

theorem TimeCache.refresh_eq {seconds : ℤ} (hz : zone.valid = false)
    (hf : Fields (gmtimeR seconds)) (hc : seconds = cache.lastSecond → cache.Holds) :
    cache.refresh zone seconds = .ok ⟨seconds, secondText (gmtimeR seconds)⟩ := by
  unfold refresh
  split
  · have hlen : (formatSecond (gmtimeR seconds)).length = 17 := by
      rw [formatSecond_eq hf, length_secondText hf]
    rw [hz]
    simp only [Bool.false_eq_true, if_false, pure_bind]
    rw [check_bind_of_true hlen, snprintf, List.take_of_length_le (by omega), formatSecond_eq hf]
    rfl
  · next hs =>
    have hs' : seconds = cache.lastSecond := not_not.mp hs
    have hhold : cache.text = secondText (gmtimeR cache.lastSecond) := hc hs'
    rw [hs', ← hhold]
    rfl

theorem uncachedText_of_invalid (hz : zone.valid = false) (time : Timestamp) :
    uncachedText zone time = .ok (secondText (gmtimeR (second time)) ++
      '.' :: (formatPadded '0' 6 (time.micros % 1000000) ++ ['Z', ' '])) := by
  simp only [uncachedText, brokenDown, zoneSuffix, hz]
  rfl

theorem formatTime_of_invalid (hz : zone.valid = false) (time : RecordTime) (stream : LogBuffer) :
    formatTime zone cache time stream = do
      let cache ← cache.refresh zone (second time)
      let stream ← insertT stream cache.text 17
      let stream ← insertT stream
        ('.' :: (formatPadded '0' 6 (time.val.micros % 1000000) ++ ['Z', ' '])) 9
      return (cache, stream) := by
  obtain ⟨hsec, hmicro⟩ := micros_split time
  unfold formatTime
  simp only [hsec, hmicro, hz, formatMicros_eq, Bool.false_eq_true, if_false, ok_bind]
  refine bind_congr fun cache => ?_
  rw [check_bind_of_true (length_formatMicros _)]

theorem formatTime_eq (hz : zone.valid = false) (time : RecordTime)
    (hc : second time = cache.lastSecond → cache.Holds) {stream : LogBuffer}
    (hfit : stream.content.length + 26 < kSmallBuffer) :
    Yields (formatTime zone cache time stream) fun r =>
      r.1 = ⟨second time, secondText (gmtimeR (second time))⟩ ∧
        ∃ text, uncachedText zone time = .ok text ∧ r.2.content = stream.content ++ ascii text := by
  have hlen := length_secondText (RecordTime.fields time)
  have hus := length_formatMicros time
  rw [formatTime_of_invalid hz, TimeCache.refresh_eq hz (RecordTime.fields time) hc, ok_bind]
  refine yields_bind (insertT_eq hlen (by omega)) fun b hb => ?_
  have hb' : b.content.length = stream.content.length + 17 := by
    rw [hb, List.length_append, length_ascii, hlen]
  refine yields_bind (insertT_eq hus (by omega)) fun b' hb' => ?_
  refine yields_pure.mpr ⟨rfl, _, uncachedText_of_invalid hz time, ?_⟩
  rw [hb', hb, List.append_assoc, ascii_append]

/-- The length for a valid time zone is not that of the text. -/
theorem formatTime_valid (hz : zone.valid = true) (time : RecordTime) (stream : LogBuffer)
    (P : TimeCache × LogBuffer → Prop) : ¬ Yields (formatTime zone cache time stream) P := by
  obtain ⟨hsec, hmicro⟩ := micros_split time
  rintro ⟨r, hr, -⟩
  unfold formatTime at hr
  simp only [hmicro, hz, if_true, formatMicros_eq] at hr
  obtain ⟨c, -, hr⟩ := bind_eq_ok hr
  obtain ⟨us, hus, hr⟩ := bind_eq_ok hr
  obtain ⟨hlen, -⟩ := check_bind_eq_ok hr
  cases hus
  rw [length_formatMicros] at hlen
  cases hlen

/-- A thread that has not made a record has no text for second 0. -/
theorem formatTime_first (hz : zone.valid = false) (time : RecordTime) (h : second time = 0)
    (stream : LogBuffer) (P : TimeCache × LogBuffer → Prop) :
    ¬ Yields (formatTime zone .new time stream) P := by
  have hcache : TimeCache.new.refresh zone (second time) = .ok .new := by
    have hs : ¬ second time ≠ TimeCache.new.lastSecond := not_not.mpr h
    rw [TimeCache.refresh, if_neg hs]
    rfl
  have hempty : insertT stream TimeCache.new.text 17 = .error (.assertion .logging_cc 53) :=
    check_bind_of_false (by decide)
  rw [formatTime_of_invalid hz, hcache, ok_bind, hempty]
  exact yields_error

end Time

namespace LogThread

/-- Before the first record the cache is the zero-initialised one. -/
structure Inv (s : LogThread) : Prop where
  texts : s.Exact
  first : s.records = [] → s.cache = .new
  later : s.records ≠ [] → s.cache.Holds

variable {s : LogThread}

theorem Inv.setZone (h : s.Inv) (zone : TimeZone) : Inv { s with zone := zone } :=
  ⟨h.texts, h.first, h.later⟩

theorem Inv.formatTime_eq (h : s.Inv) {time : RecordTime} (hx : s.Formattable (.record time))
    (stream : LogBuffer) (hfit : stream.content.length + 26 < kSmallBuffer) :
    Yields (formatTime s.zone s.cache time stream) fun r => r.1.Holds ∧
      ∃ text, uncachedText s.zone time = .ok text ∧
        r.2.content = stream.content ++ ascii text := by
  have hc : second time = s.cache.lastSecond → s.cache.Holds := by
    intro hs
    refine h.later fun hnil => hx.2 hnil ?_
    rw [hs, h.first hnil]
    rfl
  refine (Logger.formatTime_eq hx.1 time hc hfit).mono ?_
  rintro ⟨cache, stream⟩ ⟨rfl, htext⟩
  exact ⟨rfl, htext⟩

theorem Inv.formatTime_stops (h : s.Inv) {time : RecordTime} (hx : ¬ s.Formattable (.record time))
    (stream : LogBuffer) (P : TimeCache × LogBuffer → Prop) :
    ¬ Yields (formatTime s.zone s.cache time stream) P := by
  cases hz : s.zone.valid with
  | true => exact formatTime_valid hz time stream P
  | false =>
    obtain ⟨hnil, h₀⟩ := Classical.not_imp.mp (not_and.mp hx hz)
    rw [h.first hnil]
    exact formatTime_first hz time (not_not.mp h₀) stream P

theorem Inv.step (h : s.Inv) {x : LogLabel} (hx : s.Formattable x) : Yields (s.step x) Inv := by
  cases x with
  | setTimeZone zone => exact yields_pure.mpr (h.setZone zone)
  | record time =>
    refine yields_bind (h.formatTime_eq hx _ (by decide)) ?_
    rintro ⟨cache, stream⟩ ⟨hcache, htext⟩
    refine yields_pure.mpr ⟨?_, ?_, fun _ => hcache⟩
    · intro r hr
      rcases List.mem_append.mp hr with hr | hr
      · exact h.texts r hr
      · rw [List.mem_singleton.mp hr]
        exact htext
    · intro hnil
      cases List.append_eq_nil_iff.mp hnil with
      | intro _ hcons => cases hcons

theorem Inv.stops (h : s.Inv) {x : LogLabel} (hx : ¬ s.Formattable x) (P : LogThread → Prop) :
    ¬ Yields (s.step x) P := by
  cases x with
  | setTimeZone zone => exact absurd trivial hx
  | record time =>
    rintro ⟨t, ht, -⟩
    obtain ⟨r, hr, -⟩ := bind_eq_ok ht
    exact h.formatTime_stops hx _ (fun _ => True) ⟨r, hr, trivial⟩

theorem new_inv : new.Inv where
  texts _ hr := by cases hr
  first _ := rfl
  later hne := absurd rfl hne

/-- A step that is not formattable stops the run, so that every state reached satisfies the
invariant. -/
theorem reached_inv {labels : List LogLabel} (h : run step new labels = .ok s) : s.Inv := by
  refine reached_invariant (C := fun _ _ => True) (fun s x t hs _ hx => ?_) new_inv
    (along_of_forall (fun _ _ => trivial) new labels) h
  by_cases hf : s.Formattable x
  · exact (hs.step hf).of_eq hx
  · exact absurd ⟨t, hx, trivial⟩ (hs.stops hf fun _ => True)

/-- The records of a thread begin with the text that would be made without the cache, and no
assertion fails, exactly as long as no record is made while a valid time zone is set and the first
record is not made in second 0. -/
theorem log_time_exact_iff (labels : List LogLabel) :
    (∀ n, Yields (run step new (labels.take n)) Exact) ↔ Along step Formattable new labels :=
  run_take_iff (E := fun _ _ => True) (fun _ _ h _ hx => h.step hx)
    (fun _ _ h _ hx => h.stops hx Exact) (fun _ h => h.texts) new_inv
    (along_of_forall (fun _ _ => trivial) new labels)

end LogThread

/-- A record in a zone eight hours ahead of universal time, and the first record of a thread in the
first second. -/
theorem LogThread.log_time_fails :
    ¬ Yields (run step new [.setTimeZone ⟨some ⟨[], [⟨28800, false, 0⟩], ['C', 'S', 'T']⟩⟩,
        .record ⟨⟨1700000000000000⟩, by decide, by decide +kernel⟩]) Exact ∧
      ¬ Yields (run step new [.record ⟨⟨500000⟩, by decide, by decide +kernel⟩]) Exact := by
  constructor
  · rw [run_cons_of_ok rfl, run_singleton]
    refine (new_inv.setZone _).stops ?_ Exact
    rintro ⟨hz, -⟩
    cases hz
  · rw [run_singleton]
    refine new_inv.stops ?_ Exact
    rintro ⟨-, h⟩
    exact h rfl (by decide)

end Logger

end Dwater
