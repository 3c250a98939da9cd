import Dwater.Base.Logging.LogFile

/-! # Log rolling

Every line goes whole into the file that is open, each file takes a block of consecutive
lines, and the names of the files differ, since each is opened at a later second than the
one before. A file that has grown too long is followed by an empty one, unless the clock
has not moved on since it was opened.
-/

set_option autoImplicit false
namespace Dwater

open Fallible Calendar

/-- A reading of the clock after the epoch and before the year 10000. -/
structure ClockReading (now : ℤ) : Prop where
  pos : 0 < now
  year_le : (gmtimeR now).tmYear + 1900 ≤ 9999

section Names

/-- The ranges of the fields that the name of a file shows. -/
structure Fields (tm : Tm) : Prop where
  year : 1000 ≤ tm.tmYear + 1900 ∧ tm.tmYear + 1900 ≤ 9999
  mon : 0 ≤ tm.tmMon + 1 ∧ tm.tmMon + 1 < 100
  mday : 0 ≤ tm.tmMday ∧ tm.tmMday < 100
  hour : 0 ≤ tm.tmHour ∧ tm.tmHour < 100
  min : 0 ≤ tm.tmMin ∧ tm.tmMin < 100
  sec : 0 ≤ tm.tmSec ∧ tm.tmSec < 100

theorem fields_gmtimeR {now : ℤ} (h : 0 ≤ now) (hyear : (gmtimeR now).tmYear + 1900 ≤ 9999) :
    Fields (gmtimeR now) := by
  obtain ⟨hv, hj⟩ := dayAfter_spec (now / 86400 + 2472632)
  have hepoch : 1970 ≤ (dayAfter (now / 86400 + 2472632)).year := by
    by_contra hy
    have hstart : Day.Valid ⟨1970, 1, 1⟩ := by constructor <;> decide
    have hlt := hv.number_lt_of_year hstart (not_le.mp hy)
    have hzero : Day.number ⟨1970, 1, 1⟩ = 0 := by decide
    unfold julianDay Date.kjulianDayOf19700101 at hj
    omega
  have hmonth := hv.month_pos
  have hmonth' := hv.month_le
  have hday := hv.day_pos
  have hday' := hv.day_le.trans (monthLength_le _ _)
  simp only [gmtimeR, utcOf] at hyear
  constructor <;> simp only [gmtimeR, utcOf] <;> omega

theorem ClockReading.fields {now : ℤ} (h : ClockReading now) : Fields (gmtimeR now) :=
  fields_gmtimeR h.pos.le h.year_le

theorem timegm_eq_of_strftime {s t : Tm} (hs : Fields s) (ht : Fields t)
    (h : LogFile.strftime s = LogFile.strftime t) : timegm s = timegm t := by
  simp only [LogFile.strftime, List.append_assoc] at h
  obtain ⟨hyear, h⟩ := List.append_inj (List.cons_injective h) (by
    rw [length_formatInt hs.year.1 hs.year.2, length_formatInt ht.year.1 ht.year.2])
  have hyear' := formatInt_inj (by linarith [hs.year.1]) (by linarith [ht.year.1]) hyear
  obtain ⟨hmon, h⟩ := inj_formatTwo hs.mon ht.mon h
  obtain ⟨hmday, h⟩ := inj_formatTwo hs.mday ht.mday h
  obtain ⟨hhour, h⟩ := inj_formatTwo hs.hour ht.hour (List.cons_injective h)
  obtain ⟨hmin, h⟩ := inj_formatTwo hs.min ht.min h
  obtain ⟨hsec, h⟩ := inj_formatTwo hs.sec ht.sec h
  have hmon' : s.tmMon = t.tmMon := add_right_cancel hmon
  simp only [timegm, hyear', hmon', hmday, hhour, hmin, hsec]

theorem ClockReading.eq_of_name {info : ProcessInfo} {basename : List Char} {s t : ℤ}
    (hs : ClockReading s) (ht : ClockReading t)
    (h : LogFile.getLogFileName info basename s = LogFile.getLogFileName info basename t) :
    s = t := by
  have htext : LogFile.strftime (gmtimeR s) = LogFile.strftime (gmtimeR t) := by
    simpa [LogFile.getLogFileName] using h
  have hgm := timegm_eq_of_strftime hs.fields ht.fields htext
  exact (timegm_gmtimeR s 0 0 _).symm.trans (hgm.trans (timegm_gmtimeR t 0 0 _))

end Names

/-- The calls in which `fwrite_unlocked` accepts all bytes. -/
structure LogCall.Legal (x : LogCall) : Prop where
  accepts : ∀ k n, x.fwrite k n = n
  reading : ClockReading x.rollNow

namespace LogFile

variable {info : ProcessInfo} {log log' : LogFile} {lines : List (List Byte)} {x : LogCall}

def files (log : LogFile) : List AppendFile := log.closed ++ log.file.toList

/-- The open file is not too long, or the clock had not moved on when `RollFile` read it. -/
def Bounded (log : LogFile) : Prop :=
  ∀ file, log.file = some file → file.content.length ≤ log.rollSize ∨
    ∃ now last, log.compared = some (now, last) ∧ now ≤ last

/-- The lines have gone to the files block by block, the last one to the open file. -/
def Holds (log : LogFile) (lines : List (List Byte)) : Prop :=
  ∃ file, log.file = some file ∧ file.writtenBytes = file.content.length ∧
    ∃ (blocks : List (List (List Byte))) (block : List (List Byte)),
      log.closed.map AppendFile.content = blocks.map List.flatten ∧
      file.content = block.flatten ∧ blocks.flatten ++ block = lines

/-- The files are named after increasing times, of which `last_roll_` is the last. -/
def Named (info : ProcessInfo) (log : LogFile) : Prop :=
  ∃ times : List ℤ, log.files.map AppendFile.filename =
      times.map (getLogFileName info log.basename) ∧
    times.Pairwise (· < ·) ∧ (∀ t ∈ times, ClockReading t) ∧ ∀ t ∈ times, t ≤ log.lastRoll

structure Inv (info : ProcessInfo) (log : LogFile) (lines : List (List Byte)) : Prop where
  holds : log.Holds lines
  named : log.Named info
  bounded : log.Bounded
  rollSize_nonneg : 0 ≤ log.rollSize

/-- The logs differ only in what `AppendUnlocked` counts and in the time of the last flush. -/
structure SameFiles (log log' : LogFile) : Prop where
  file_eq : log'.file = log.file
  closed_eq : log'.closed = log.closed
  basename_eq : log'.basename = log.basename
  lastRoll_eq : log'.lastRoll = log.lastRoll
  rollSize_eq : log'.rollSize = log.rollSize
  compared_eq : log'.compared = log.compared

theorem SameFiles.holds (h : SameFiles log log') (hh : log.Holds lines) : log'.Holds lines := by
  unfold Holds
  rw [h.file_eq, h.closed_eq]
  exact hh

theorem SameFiles.named (h : SameFiles log log') (hn : log.Named info) : log'.Named info := by
  unfold Named files
  rw [h.file_eq, h.closed_eq, h.basename_eq, h.lastRoll_eq]
  exact hn

theorem SameFiles.bounded (h : SameFiles log log') (hb : log.Bounded) : log'.Bounded := by
  unfold Bounded
  rw [h.file_eq, h.rollSize_eq, h.compared_eq]
  exact hb

theorem rollFile_rollSize {now : ℤ} : (rollFile info now log).rollSize = log.rollSize := by
  simp only [rollFile]
  split <;> rfl

theorem rollFile_holds {now : ℤ} (h : log.Holds lines) : (rollFile info now log).Holds lines := by
  obtain ⟨file, hfile, hwritten, blocks, block, hclosed, hcontent, hlines⟩ := h
  simp only [rollFile]
  split
  · refine ⟨_, rfl, rfl, blocks ++ [block], [], ?_, rfl, ?_⟩
    · simp [hfile, hclosed, hcontent]
    · simp [hlines]
  · exact ⟨file, hfile, hwritten, blocks, block, hclosed, hcontent, hlines⟩

theorem rollFile_named {now : ℤ} (hnow : ClockReading now) (h : log.Named info) :
    (rollFile info now log).Named info := by
  obtain ⟨times, hnames, hsorted, hclock, hle⟩ := h
  simp only [rollFile]
  split
  · next hlt =>
    have hlater : ∀ t ∈ times, t < now := fun t ht => (hle t ht).trans_lt hlt
    refine ⟨times ++ [now], ?_, ?_, ?_, ?_⟩
    · simp [files, AppendFile.new, ← hnames]
    · rw [List.pairwise_append]
      exact ⟨hsorted, List.pairwise_singleton _ _, by simpa using hlater⟩
    · intro t ht
      rcases List.mem_append.mp ht with ht | ht
      · exact hclock t ht
      · rw [List.mem_singleton.mp ht]
        exact hnow
    · intro t ht
      rcases List.mem_append.mp ht with ht | ht
      · exact (hlater t ht).le
      · exact (List.mem_singleton.mp ht).le
  · exact ⟨times, hnames, hsorted, hclock, hle⟩

/-- `RollFile` opens an empty file unless the clock has not moved on. -/
theorem rollFile_bounded {now : ℤ} (h : 0 ≤ log.rollSize) : (rollFile info now log).Bounded := by
  rintro file hfile
  simp only [rollFile] at hfile ⊢
  split at hfile
  · next hlt =>
    cases hfile
    rw [if_pos hlt]
    exact .inl h
  · next hle =>
    rw [if_neg hle]
    exact .inr ⟨now, log.lastRoll, rfl, not_lt.mp hle⟩

theorem rollFile_inv {now : ℤ} (hnow : ClockReading now) (hh : log.Holds lines)
    (hn : log.Named info) (h₀ : 0 ≤ log.rollSize) : (rollFile info now log).Inv info lines :=
  ⟨rollFile_holds hh, rollFile_named hnow hn, rollFile_bounded h₀, by rwa [rollFile_rollSize]⟩

theorem checkPeriod_cases (info : ProcessInfo) (x : LogCall) (log : LogFile) :
    ∃ log', SameFiles log log' ∧
      (checkPeriod info x log = log' ∨ checkPeriod info x log = rollFile info x.rollNow log') := by
  simp only [checkPeriod]
  split_ifs
  · refine ⟨_, ?_, .inr rfl⟩
    exact ⟨rfl, rfl, rfl, rfl, rfl, rfl⟩
  · refine ⟨_, ?_, .inl rfl⟩
    exact ⟨rfl, rfl, rfl, rfl, rfl, rfl⟩
  · refine ⟨_, ?_, .inl rfl⟩
    exact ⟨rfl, rfl, rfl, rfl, rfl, rfl⟩
  · refine ⟨_, ?_, .inl rfl⟩
    exact ⟨rfl, rfl, rfl, rfl, rfl, rfl⟩

theorem append_file_eq {file : AppendFile} (hx : ∀ k n, x.fwrite k n = n) :
    file.append x.fwrite x.logline = { file with
      content := file.content ++ x.logline
      writtenBytes := file.writtenBytes + x.logline.length } := by
  simp [AppendFile.append, hx, AppendFile.writeRest]

theorem append_inv (h : log.Inv info lines) (hx : x.Legal) :
    Yields (append info log x) fun log' => log'.Inv info (lines ++ [x.logline]) := by
  obtain ⟨file, hfile, hwritten, blocks, block, hclosed, hcontent, hlines⟩ := h.holds
  obtain ⟨times, hnames, htimes⟩ := h.named
  simp only [append, hfile, append_file_eq hx.accepts]
  generalize hlog : ({ log with
    file := some { file with
      content := file.content ++ x.logline
      writtenBytes := file.writtenBytes + x.logline.length }
    compared := none } : LogFile) = written
  have hh : written.Holds (lines ++ [x.logline]) := by
    subst hlog
    refine ⟨_, rfl, ?_, blocks, block ++ [x.logline], hclosed, ?_, ?_⟩
    · simp [hwritten]
    · simp [hcontent]
    · rw [← List.append_assoc, hlines]
  have hn : written.Named info := by
    subst hlog
    refine ⟨times, ?_, htimes⟩
    rw [← hnames]
    simp [files, hfile]
  have h₀ : 0 ≤ written.rollSize := by
    subst hlog
    exact h.rollSize_nonneg
  split
  · exact yields_ok.mpr (rollFile_inv hx.reading hh hn h₀)
  · next hsize =>
    obtain ⟨log', hsame, heq | heq⟩ := checkPeriod_cases info x written
    · have hb : written.Bounded := by
        subst hlog
        rintro file' ⟨⟩
        left
        simp only [List.length_append]
        omega
      rw [heq]
      exact yields_ok.mpr ⟨hsame.holds hh, hsame.named hn, hsame.bounded hb,
        hsame.rollSize_eq ▸ h₀⟩
    · rw [heq]
      exact yields_ok.mpr (rollFile_inv hx.reading (hsame.holds hh) (hsame.named hn)
        (hsame.rollSize_eq ▸ h₀))

theorem new_inv {basename : List Char} {rollSize flushInterval checkEveryN now : ℤ}
    (hbase : '/' ∉ basename) (hroll : 0 ≤ rollSize) (hnow : ClockReading now) :
    Yields (new info basename rollSize flushInterval checkEveryN now) fun log =>
      log.Inv info [] ∧ log.rollSize = rollSize := by
  rw [new, check_bind_of_true hbase, yields_pure]
  have hpos : now > 0 := hnow.pos
  simp only [rollFile, if_pos hpos]
  refine ⟨⟨⟨_, rfl, rfl, [], [], rfl, rfl, rfl⟩, ⟨[now], rfl, ?_, ?_, ?_⟩, ?_, hroll⟩, trivial⟩
  · exact List.pairwise_singleton _ _
  · intro t ht
    rw [List.mem_singleton.mp ht]
    exact hnow
  · intro t ht
    exact (List.mem_singleton.mp ht).le
  · rintro file ⟨⟩
    exact .inl hroll

theorem append_rollSize (h : append info log x = .ok log') : log'.rollSize = log.rollSize := by
  unfold append at h
  split at h
  · cases h
  · simp only at h
    split at h
    · cases h
      exact rollFile_rollSize
    · cases h
      obtain ⟨log', hsame, heq | heq⟩ := checkPeriod_cases info x { log with
        file := some (AppendFile.append _ x.fwrite x.logline), compared := none }
      · rw [heq, hsame.rollSize_eq]
      · rw [heq, rollFile_rollSize, hsame.rollSize_eq]

/-- The files after the lines have been appended: their names differ, each
holds a block of consecutive lines, the open one is not too long unless the clock had
not moved on. -/
structure Lossless (log : LogFile) (rollSize : ℤ) (lines : List (List Byte)) : Prop where
  distinct : (log.files.map AppendFile.filename).Nodup
  blocks : ∃ blocks : List (List (List Byte)),
    log.files.map AppendFile.content = blocks.map List.flatten ∧ blocks.flatten = lines
  whole : (log.files.map AppendFile.content).flatten = lines.flatten
  bounded : ∃ file, log.file = some file ∧ ((file.content.length : ℤ) ≤ rollSize ∨
    ∃ now last, log.compared = some (now, last) ∧ now ≤ last)

theorem Inv.lossless (h : log.Inv info lines) : log.Lossless log.rollSize lines := by
  obtain ⟨file, hfile, hwritten, blocks, block, hclosed, hcontent, hlines⟩ := h.holds
  obtain ⟨times, hnames, hsorted, hclock, -⟩ := h.named
  have hblocks : log.files.map AppendFile.content = (blocks ++ [block]).map List.flatten := by
    simp [files, hfile, hclosed, hcontent]
  have hflat : (blocks ++ [block]).flatten = lines := by simp [hlines]
  refine ⟨?_, ⟨_, hblocks, hflat⟩, ?_, ⟨file, hfile, h.bounded file hfile⟩⟩
  · rw [hnames]
    refine List.Nodup.map_on ?_ (hsorted.imp ne_of_lt)
    intro s hs t ht heq
    exact (hclock s hs).eq_of_name (hclock t ht) heq
  · rw [hblocks, ← hflat, List.flatten_flatten]

end LogFile

/-- After any sequence of calls the files have distinct names, hold the lines in order, each line
in one file, and the open one is not too long unless the clock has not moved on. -/
theorem log_rolling_lossless (info : ProcessInfo) {basename : List Char} (hbase : '/' ∉ basename)
    {rollSize flushInterval checkEveryN now : ℤ} (hroll : 0 ≤ rollSize) (hnow : ClockReading now)
    (calls : List LogCall) (hcalls : ∀ x ∈ calls, x.Legal) :
    Yields (LogFile.new info basename rollSize flushInterval checkEveryN now >>= fun log =>
        run (LogFile.append info) log calls)
      fun log => log.Lossless rollSize (calls.map LogCall.logline) := by
  refine yields_bind (LogFile.new_inv hbase hroll hnow) ?_
  rintro log ⟨hinv, hsize⟩
  have hstep : ∀ log lines x, log.Inv info lines ∧ log.rollSize = rollSize → LogCall.Legal x →
      Yields (LogFile.append info log x) fun log' =>
        log'.Inv info (lines ++ [x.logline]) ∧ log'.rollSize = rollSize := by
    rintro log lines x ⟨hinv, hsize⟩ hx
    obtain ⟨log', heq, hinv'⟩ := LogFile.append_inv hinv hx
    exact ⟨log', heq, hinv', (LogFile.append_rollSize heq).trans hsize⟩
  have hlines : calls.foldl (fun lines x => lines ++ [x.logline]) [] =
      calls.map LogCall.logline := by
    rw [List.foldl_append_eq_append, List.nil_append, ← List.flatMap_def, ← List.map_eq_flatMap]
  refine (run_simulates hstep ⟨hinv, hsize⟩ (along_of_mem hcalls log)).mono ?_
  rintro log' ⟨hinv', hsize'⟩
  rw [hlines] at hinv'
  exact hsize' ▸ hinv'.lossless

/-- Two lines that are too long in one second, the clock stepping back between them, and one more
in the next second, behind which a second file is opened. -/
theorem log_rolling_lossless_clock_back :
    Yields (LogFile.new ⟨['h'], 7⟩ ['a'] 1 3 2 1000 >>= fun log =>
        run (LogFile.append ⟨['h'], 7⟩) log
          [⟨[0, 1], fun _ n => n, 1000, 1000⟩, ⟨[2], fun _ n => n, 1000, 999⟩,
            ⟨[3, 4], fun _ n => n, 1001, 1001⟩, ⟨[5], fun _ n => n, 1001, 1001⟩])
      fun log => log.Lossless 1 [[0, 1], [2], [3, 4], [5]] := by
  have hclock : ∀ now ∈ [1000, 999, 1001], ClockReading now := by
    intro now hnow
    constructor
    · revert now
      decide
    · revert now
      decide +kernel
  refine log_rolling_lossless ⟨['h'], 7⟩ (by decide) (by decide) (hclock 1000 (by simp)) _ ?_
  rintro x hx
  simp only [List.mem_cons, List.not_mem_nil, or_false] at hx
  rcases hx with rfl | rfl | rfl | rfl
  · exact ⟨fun _ _ => rfl, hclock 1000 (by simp)⟩
  · exact ⟨fun _ _ => rfl, hclock 999 (by simp)⟩
  · exact ⟨fun _ _ => rfl, hclock 1001 (by simp)⟩
  · exact ⟨fun _ _ => rfl, hclock 1001 (by simp)⟩

/-- The lines of that run are in two files. -/
example : ((LogFile.new ⟨['h'], 7⟩ ['a'] 1 3 2 1000 >>= fun log =>
    run (LogFile.append ⟨['h'], 7⟩) log
      [⟨[0, 1], fun _ n => n, 1000, 1000⟩, ⟨[2], fun _ n => n, 1000, 999⟩,
        ⟨[3, 4], fun _ n => n, 1001, 1001⟩, ⟨[5], fun _ n => n, 1001, 1001⟩]).toOption.map
      fun log => (log.closed.map AppendFile.content, log.file.map AppendFile.content)) =
    some ([[0, 1, 2, 3, 4]], some [5]) := by decide +kernel

end Dwater
