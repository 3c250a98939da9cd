import Dwater.Base.Logging.FormatTime
import Dwater.Base.Logging.Numbers
import Dwater.Base.Logging.SourceFile

/-! # Log statements

A `Logger` starts the record in its constructor, the insertions of the statement follow, and
its destructor completes the record, hands it to `g_output` and aborts if `level_` is
`FATAL`. No constructor sets `level_`, so that it has the value its memory held before.
-/

set_option autoImplicit false
namespace Dwater

open Fallible

namespace Logger

def blank : Byte := 32

def colon : Byte := 58

def newline : Byte := 10

inductive LogLevel
  | trace
  | debug
  | info
  | warn
  | error
  | fatal
  deriving DecidableEq, Repr

namespace LogLevel

def value : LogLevel → UInt32
  | trace => 0
  | debug => 1
  | info => 2
  | warn => 3
  | error => 4
  | fatal => 5

def name : LogLevel → List Char
  | trace => ['T', 'R', 'A', 'C', 'E', ' ']
  | debug => ['D', 'E', 'B', 'U', 'G', ' ']
  | info => ['I', 'N', 'F', 'O', ' ', ' ']
  | warn => ['W', 'A', 'R', 'N', ' ', ' ']
  | error => ['E', 'R', 'R', 'O', 'R', ' ']
  | fatal => ['F', 'A', 'T', 'A', 'L', ' ']

end LogLevel

/-- The arguments of the four constructors, besides the source file and the line. -/
inductive Args
  | plain
  | level (level : LogLevel)
  | func (level : LogLevel) (func : Option CString)
  | abort (toAbort : Bool)
  deriving DecidableEq

/-- What a constructor of `SourceFile` is given. The size of an array is an `int`. -/
inductive FileArg
  | array (path : CString) (h : path.val.length + 1 < 2 ^ 31)
  | filename (path : CString) (stale : Int32)

structure Statement where
  args : Args
  file : FileArg
  line : Int32
  insertions : List Insertion

/-- What a statement finds: the reading of the clock, the thread, `errno`, the texts of the error
numbers, and the memory that becomes `level_`. -/
structure Env where
  time : RecordTime
  tid : Int32
  errno : Int32
  strerror : Int32 → CString
  levelMemory : UInt32

structure Impl where
  stream : LogBuffer
  level : UInt32
  line : Int32
  basename : SourceFile

inductive Effect
  | output (msg : List Byte)
  | flush
  | abort
  deriving DecidableEq

def FileArg.path : FileArg → CString
  | array path _ => path
  | filename path _ => path

def FileArg.sourceFile : FileArg → SourceFile
  | array path _ => .ofArray path
  | filename path stale => .ofFilename path stale

def tidString (tid : Int32) : List Char × ℕ :=
  let text := formatPadded ' ' 5 tid.toInt
  (snprintf 32 text, text.length)

/-- `operator<<` for a `SourceFile`; a negative length becomes a large one. -/
def insertFile (b : LogBuffer) (file : SourceFile) : Except Fault LogBuffer :=
  let len := toSizeT file.size
  if b.avail > len then
    if len ≤ file.data.length then b.append (file.data.take len)
    else .error (.outOfBounds .log_stream_h 45)
  else .ok b

def insertAll (b : LogBuffer) (insertions : List Insertion) : Except Fault LogBuffer :=
  run FixedBuffer.insert b insertions

/-- What the constructor of `Impl` inserts when there is an error number. -/
def errnoInsertions (env : Env) (savedErrno : Int32) : List Insertion :=
  if savedErrno ≠ 0 then
    [.cString (some (env.strerror savedErrno)),
      .cString (some (ascii [' ', '(', 'e', 'r', 'r', 'n', 'o', ' ', '=', ' '])), .int savedErrno,
      .cString (some (ascii [')', ' ']))]
  else []

namespace Impl

def new (s : LogThread) (env : Env) (level : LogLevel) (savedErrno : Int32) (file : SourceFile)
    (line : Int32) : Except Fault (TimeCache × Impl) := do
  let (cache, stream) ← formatTime s.zone s.cache env.time FixedBuffer.new
  let stream ← insertT stream (tidString env.tid).1 (tidString env.tid).2
  let stream ← insertT stream level.name 6
  let stream ← insertAll stream (errnoInsertions env savedErrno)
  return (cache, ⟨stream, env.levelMemory, line, file⟩)

def finish (impl : Impl) : Except Fault Impl := do
  let stream ← insertAll impl.stream [.cString (some (ascii [' ', '-', ' ']))]
  let stream ← insertFile stream impl.basename
  let stream ← insertAll stream
    [.char colon, .int impl.line, .char newline]
  return { impl with stream := stream }

end Impl

def new (s : LogThread) (env : Env) (file : SourceFile) (line : Int32) :
    Args → Except Fault (TimeCache × Impl)
  | .plain => Impl.new s env .info 0 file line
  | .func level func => do
    let (cache, impl) ← Impl.new s env level 0 file line
    let stream ← insertAll impl.stream
      [.cString (func.map Subtype.val), .char blank]
    return (cache, { impl with stream := stream })
  | .level level => Impl.new s env level 0 file line
  | .abort toAbort => Impl.new s env (if toAbort then .fatal else .error) env.errno file line

def destroy (impl : Impl) : Except Fault (List Effect) := do
  let impl ← impl.finish
  return .output impl.stream.content ::
    if impl.level = LogLevel.fatal.value then [.flush, .abort] else []

def execute (s : LogThread) (env : Env) (st : Statement) : Except Fault (List Effect) := do
  let (_, impl) ← new s env st.file.sourceFile st.line st.args
  let stream ← insertAll impl.stream st.insertions
  destroy { impl with stream := stream }

namespace Args

def logLevel : Args → LogLevel
  | plain => .info
  | level l => l
  | func l _ => l
  | abort toAbort => if toAbort then .fatal else .error

def savedErrno (env : Env) : Args → Int32
  | abort _ => env.errno
  | _ => 0

end Args

namespace Statement

variable (env : Env) (st : Statement)

def details : List Byte :=
  let errno := st.args.savedErrno env
  (if errno ≠ 0 then (env.strerror errno).val ++
      ascii ([' ', '(', 'e', 'r', 'r', 'n', 'o', ' ', '=', ' '] ++ formatInt errno.toInt
        ++ [')', ' '])
    else []) ++
  match st.args with
  | .func _ (some name) => name.val ++ ascii [' ']
  | .func _ none => ascii ['(', 'n', 'u', 'l', 'l', ')', ' ']
  | _ => []

def body : List Byte :=
  ascii (formatPadded ' ' 5 env.tid.toInt ++ st.args.logLevel.name) ++ st.details env ++
    st.insertions.flatMap Insertion.text ++ ascii [' ', '-', ' '] ++
    SourceFile.baseName st.file.path ++ ascii (':' :: (formatInt st.line.toInt ++ ['\n']))

/-- The complete record of a statement in the time zone that is in force. -/
def record (zone : TimeZone) : Except Fault (List Byte) :=
  (fun time => ascii time ++ st.body env) <$> uncachedText zone env.time

/-- The record is handed over once, and then the process aborts if the level is `FATAL`. -/
def Complete (zone : TimeZone) (effects : List Effect) : Prop :=
  ∃ record, st.record env zone = .ok record ∧
    effects = .output record :: if st.args.logLevel = .fatal then [.flush, .abort] else []

end Statement

/-- The piece that the destructor appends is the base name. For a path with a slash that is a
matter of the length: there is no other slash, or nothing follows the last one and the piece is too
long to be appended. -/
def FileArg.NamesBase : FileArg → Prop
  | array path _ => path.val.count slash ≤ 1 ∨
      SourceFile.baseName path = [] ∧ kSmallBuffer ≤ (SourceFile.afterFirst path).length
  | filename path stale => slash ∉ path.val ∨
      stale.toInt = (SourceFile.baseName path).length ∧
        SourceFile.baseName path <+: SourceFile.afterFirst path ∨
      SourceFile.baseName path = [] ∧ (stale.toInt < 0 ∨ kSmallBuffer ≤ stale.toInt)

section Parts

variable (env : Env) (st : Statement)

def Args.insertions : Args → List Insertion
  | .func _ name => [.cString (name.map Subtype.val), .char blank]
  | _ => []

def Statement.before : List Insertion :=
  .append (ascii (tidString env.tid).1) :: .append (ascii st.args.logLevel.name) ::
    (errnoInsertions env (st.args.savedErrno env) ++ st.args.insertions ++ st.insertions ++
      [.cString (some (ascii [' ', '-', ' ']))])

def Statement.after : List Insertion := [.char colon, .int st.line, .char newline]

end Parts

section Equations

variable {s : LogThread} {env : Env}

theorem insertAll_cons (b : LogBuffer) (x : Insertion) (xs : List Insertion) :
    insertAll b (x :: xs) = b.insert x >>= fun b => insertAll b xs := rfl

theorem insertAll_append (b : LogBuffer) (xs ys : List Insertion) :
    insertAll b (xs ++ ys) = insertAll b xs >>= fun b => insertAll b ys := run_append ..

theorem length_formatInt_int32 (n : Int32) : (formatInt n.toInt).length ≤ 11 := by
  have hlt : n.toInt < 2 ^ 31 := n.toInt_lt
  have hge : -2 ^ 31 ≤ n.toInt := n.le_toInt
  by_cases h : n.toInt < 0
  · have hlen : (Nat.toDigits 10 n.toInt.natAbs).length ≤ 10 :=
      (Nat.length_toDigits_le_iff (by decide) (by decide)).mpr (by omega)
    rw [formatInt_of_neg h, List.length_cons]
    omega
  · have hlen := (length_formatInt_le (w := 10) (not_lt.mp h) (by decide)).mpr (by omega)
    omega

theorem tidString_eq (tid : Int32) :
    tidString tid = (formatPadded ' ' 5 tid.toInt, (formatPadded ' ' 5 tid.toInt).length) := by
  have hlen := length_formatInt_int32 tid
  have hpad : (formatPadded ' ' 5 tid.toInt).length ≤ 31 := by
    rw [formatPadded, List.length_append, List.length_replicate]
    omega
  rw [tidString, snprintf, List.take_of_length_le hpad]

theorem length_tidString (tid : Int32) : (tidString tid).1.length = (tidString tid).2 := by
  rw [tidString_eq]

theorem LogLevel.length_name (level : LogLevel) : level.name.length = 6 := by cases level <;> rfl

theorem insertT_of_length {b : LogBuffer} {str : List Char} {len : ℕ} (h : str.length = len) :
    insertT b str len = b.insert (.append (ascii str)) := check_bind_of_true h

theorem Impl.new_eq (level : LogLevel) (savedErrno : Int32) (file : SourceFile) (line : Int32) :
    Impl.new s env level savedErrno file line = do
      let r ← formatTime s.zone s.cache env.time FixedBuffer.new
      let stream ← insertAll r.2 (.append (ascii (tidString env.tid).1) ::
        .append (ascii level.name) :: errnoInsertions env savedErrno)
      return (r.1, ⟨stream, env.levelMemory, line, file⟩) := by
  unfold Impl.new
  refine bind_congr fun r => ?_
  simp only [insertT_of_length (length_tidString env.tid), insertT_of_length level.length_name,
    insertAll_cons, bind_assoc]

theorem new_eq (file : SourceFile) (line : Int32) (args : Args) :
    new s env file line args = do
      let r ← formatTime s.zone s.cache env.time FixedBuffer.new
      let stream ← insertAll r.2 (.append (ascii (tidString env.tid).1) ::
        .append (ascii args.logLevel.name) ::
          (errnoInsertions env (args.savedErrno env) ++ args.insertions))
      return (r.1, ⟨stream, env.levelMemory, line, file⟩) := by
  cases args with
  | plain => exact Impl.new_eq ..
  | level l => 
    simp only [new, Args.insertions, List.append_nil]
    exact Impl.new_eq ..
  | func l name =>
    simp only [new, Impl.new_eq, Args.insertions, bind_assoc, pure_bind]
    simp only [insertAll_cons, insertAll_append, bind_assoc, Args.logLevel, Args.savedErrno]
  | abort toAbort =>
    simp only [new, Args.insertions, List.append_nil]
    exact Impl.new_eq ..

/-- A statement is a single series of insertions, except for the time and the source file. -/
theorem execute_eq (st : Statement) : execute s env st = do
    let r ← formatTime s.zone s.cache env.time FixedBuffer.new
    let b ← insertAll r.2 (st.before env)
    let b ← insertFile b st.file.sourceFile
    let b ← insertAll b st.after
    return .output b.content ::
      if env.levelMemory = LogLevel.fatal.value then [.flush, .abort] else [] := by
  simp only [execute, new_eq, destroy, Impl.finish, Statement.before, Statement.after, bind_assoc,
    pure_bind]
  simp only [insertAll_cons, insertAll_append, bind_assoc]

end Equations

/-- What an insertion appends when it is accepted: a pointer has its terminator in the middle. -/
def stored : Insertion → List Byte
  | .pointer p => ascii ['0', 'x'] ++ (convertHex p.toNat).1
  | x => x.text

section Contents

variable {b b' : LogBuffer} {x : Insertion} {xs : List Insertion}

theorem stored_eq (h : x.isPointer = false) : stored x = x.text := by
  cases x with
  | pointer p => cases h
  | _ => rfl

theorem accepted_of_lt (h : x.text.length < kSmallBuffer) : x.Accepted kSmallBuffer := by
  unfold Insertion.Accepted
  split
  · decide
  · exact h

theorem insert_stored (h : x.text.length < kSmallBuffer) (hb : b.insert x = .ok b') :
    b'.content = b.content ++ stored x := by
  cases hp : x.isPointer with
  | false =>
    rw [stored_eq hp]
    by_cases hfit : b.content.length + x.written ≤ kSmallBuffer
    · exact (FixedBuffer.insert_fits (accepted_of_lt h) hp hfit).of_eq hb
    · exact absurd ⟨b', hb, trivial⟩
        (FixedBuffer.insert_overruns (accepted_of_lt h) (not_le.mp hfit) fun _ => True)
  | true =>
    cases x with
    | pointer p =>
      have hsize : kMaxNumericSize ≤ b.avail := by
        rw [FixedBuffer.avail]
        decide
      have hlen : (convertHex p.toNat).2 + 2 = (stored (.pointer p)).length := by
        rw [stored, convertHex_eq, List.length_append, List.length_cons, Nat.add_comm]
        rfl
      rw [FixedBuffer.insert, FixedBuffer.insertPointer, if_pos hsize, hlen] at hb
      by_cases hfit : b.content.length + (stored (.pointer p)).length ≤ kSmallBuffer
      · have hput := (b.put_eq (stored (.pointer p)).length 59 hfit).of_eq hb
        rwa [List.take_length] at hput
      · rw [show ascii ['0', 'x'] ++ (convertHex p.toNat).1 = stored (.pointer p) from rfl,
          b.put_overruns _ _ (not_le.mp hfit)] at hb
        cases hb
    | _ => cases hp

theorem insertAll_stored (h : ∀ x ∈ xs, x.text.length < kSmallBuffer)
    (hb : insertAll b xs = .ok b') : b'.content = b.content ++ xs.flatMap stored := by
  induction xs generalizing b with
  | nil =>
    cases hb
    rw [List.flatMap_nil, List.append_nil]
  | cons x xs ih =>
    obtain ⟨c, hc, hb⟩ := bind_eq_ok hb
    rw [ih (fun y hy => h y (List.mem_cons_of_mem x hy)) hb,
      insert_stored (h x List.mem_cons_self) hc, List.append_assoc]
    rfl

theorem insertAll_fits (hp : ∀ x ∈ xs, x.isPointer = false)
    (hfit : b.content.length + (xs.flatMap Insertion.text).length < kSmallBuffer) :
    Yields (insertAll b xs) fun b' => b'.content = b.content ++ xs.flatMap Insertion.text := by
  induction xs generalizing b with
  | nil => exact ⟨b, rfl, by rw [List.flatMap_nil, List.append_nil]⟩
  | cons x xs ih =>
    rw [List.flatMap_cons, List.length_append] at hfit
    have hwritten : x.written ≤ x.text.length + 1 := by
      unfold Insertion.written
      split <;> omega
    refine yields_bind (FixedBuffer.insert_fits (accepted_of_lt (by omega))
      (hp x List.mem_cons_self)
      (by omega)) fun c hc => ?_
    have hlen := congrArg List.length hc
    rw [List.length_append] at hlen
    refine (ih (fun y hy => hp y (List.mem_cons_of_mem x hy)) (by omega)).mono fun b' hb' => ?_
    rw [hb', hc, List.append_assoc]
    rfl

/-- The terminator in the text of a pointer is not followed by what should follow. -/
theorem stored_cancel {r r' : List Byte}
    (h : xs.flatMap stored ++ r = xs.flatMap Insertion.text ++ r') :
    (∀ x ∈ xs, x.isPointer = false) ∧ r = r' := by
  induction xs with
  | nil => exact ⟨by simp, h⟩
  | cons x xs ih =>
    rw [List.flatMap_cons, List.flatMap_cons, List.append_assoc, List.append_assoc] at h
    cases hp : x.isPointer with
    | false =>
      rw [stored_eq hp] at h
      obtain ⟨hxs, hr⟩ := ih (List.append_cancel_left h)
      refine ⟨fun y hy => ?_, hr⟩
      rcases List.mem_cons.mp hy with rfl | hy
      · exact hp
      · exact hxs y hy
    | true =>
      cases x with
      | pointer p =>
        obtain ⟨numeral, hnum, htext⟩ := isPointerText p
        rw [htext, stored, convertHex_eq, List.append_assoc, List.append_assoc] at h
        obtain ⟨digit, digits, rfl⟩ := List.exists_cons_of_ne_nil hnum.ne_nil
        obtain ⟨d, hd, hdigit⟩ := hnum.mem List.mem_cons_self
        have hzero : (0 : Byte) = digit := (List.cons.inj (List.append_cancel_left h)).1
        have hne : ∀ d < 16, hexDigit d ≠ 0 := by decide
        exact absurd (hdigit.symm.trans hzero.symm) (hne d hd)
      | _ => cases hp

/-- What the destructor appends of a source file; a length that is too large is not appended. -/
def piece (file : SourceFile) : Option (List Byte) :=
  if 0 ≤ file.size ∧ file.size < kSmallBuffer then file.text else some []

theorem append_nil (b : LogBuffer) : b.append [] = .ok b := by
  have hfit : (b.content ++ []).length ≤ kSmallBuffer := by
    rw [List.append_nil]
    exact b.fits
  rw [b.append_eq (by decide) hfit]
  simp only [List.append_nil]

theorem insertFile_eq {file : SourceFile} (h : -2 ^ 31 ≤ file.size) (h' : file.size < 2 ^ 31) :
    insertFile b file =
      match piece file with
      | some text => b.append text
      | none => .error (.outOfBounds .log_stream_h 45) := by
  have hk : kSmallBuffer = 4000 := rfl
  unfold insertFile piece FixedBuffer.avail SourceFile.text
  by_cases hsize : 0 ≤ file.size ∧ file.size < kSmallBuffer
  · have hlen : toSizeT file.size = file.size.toNat := by
      rw [toSizeT, Int.emod_eq_of_lt hsize.1 (by omega)]
    simp only [hlen, if_pos hsize]
    rw [if_pos (by omega)]
    by_cases hle : file.size.toNat ≤ file.data.length
    · rw [if_pos hle, if_pos ⟨hsize.1, by omega⟩]
    · rw [if_neg hle, if_neg (by omega)]
  · have hlen : ¬ kSmallBuffer > toSizeT file.size := by
      unfold toSizeT
      omega
    simp only [if_neg hsize, if_neg hlen]
    exact (append_nil b).symm

theorem length_piece_lt {file : SourceFile} {text : List Byte} (h : piece file = some text) :
    text.length < kSmallBuffer := by
  unfold piece SourceFile.text at h
  split at h
  · split at h
    · have hlen := congrArg List.length (Option.some.inj h)
      rw [List.length_take] at hlen
      omega
    · cases h
  · cases h
    decide

section File

variable {file : SourceFile} (h : -2 ^ 31 ≤ file.size ∧ file.size < 2 ^ 31)

include h

theorem insertFile_piece (hb : insertFile b file = .ok b') :
    ∃ text, piece file = some text ∧ b'.content = b.content ++ text := by
  rw [insertFile_eq h.1 h.2] at hb
  cases hp : piece file with
  | none =>
    rw [hp] at hb
    cases hb
  | some text =>
    rw [hp] at hb
    exact ⟨text, rfl, insert_stored (x := .append text) (length_piece_lt hp) hb⟩

theorem insertFile_fits {text : List Byte} (hp : piece file = some text)
    (hfit : b.content.length + text.length < kSmallBuffer) :
    Yields (insertFile b file) fun b' => b'.content = b.content ++ text := by
  rw [insertFile_eq h.1 h.2, hp]
  exact FixedBuffer.insert_fits (x := .append text) (accepted_of_lt (length_piece_lt hp)) rfl
    hfit.le

end File

/-- A piece is the base name when it has the length of it and begins with it, or when there is no
base name and the piece is not appended. -/
theorem piece_eq_some_iff {name base : List Byte} {size : ℤ} (h : 0 ∉ base)
    (hbase : base.length < kSmallBuffer) :
    piece ⟨name ++ [0], size⟩ = some base ↔
      size = base.length ∧ base <+: name ∨ base = [] ∧ (size < 0 ∨ kSmallBuffer ≤ size) := by
  unfold piece
  dsimp only
  by_cases hsize : 0 ≤ size ∧ size < kSmallBuffer
  · rw [if_pos hsize, SourceFile.text_eq_some_iff h]
    refine (or_iff_left ?_).symm
    rintro ⟨-, hout⟩
    omega
  · rw [if_neg hsize, Option.some.injEq, eq_comm]
    constructor
    · intro hnil
      exact .inr ⟨hnil, by omega⟩
    · rintro (⟨hlen, -⟩ | ⟨hnil, -⟩)
      · omega
      · exact hnil

end Contents

namespace FileArg

variable {file : FileArg}

theorem size_bounds (file : FileArg) :
    -2 ^ 31 ≤ file.sourceFile.size ∧ file.sourceFile.size < 2 ^ 31 := by
  cases file with
  | array path h =>
    have hle := SourceFile.length_afterFirst_le path
    rw [sourceFile, SourceFile.ofArray_eq]
    dsimp only
    omega
  | filename path stale =>
    by_cases h : slash ∈ path.val
    · rw [sourceFile, SourceFile.ofFilename_of_mem h]
      exact ⟨stale.le_toInt, stale.toInt_lt⟩
    · have hge : -(2 ^ 32 / 2) ≤ toInt path.val.length := Int.le_bmod (by decide)
      have hlt : toInt path.val.length < (2 ^ 32 + 1) / 2 := Int.bmod_lt (by decide)
      rw [sourceFile, SourceFile.ofFilename_of_notMem h]
      dsimp only
      omega

theorem namesBase_iff (h : (SourceFile.baseName file.path).length < kSmallBuffer) :
    piece file.sourceFile = some (SourceFile.baseName file.path) ↔ file.NamesBase := by
  have hk : kSmallBuffer = 4000 := rfl
  cases file with
  | array path hlen =>
    have hzero := SourceFile.zero_notMem_baseName path
    rw [sourceFile, SourceFile.ofArray_eq, FileArg.path, piece_eq_some_iff hzero h, NamesBase,
      SourceFile.afterFirst_names_iff]
    refine or_congr_right (and_congr_right fun _ => ?_)
    omega
  | filename path stale =>
    have hzero := SourceFile.zero_notMem_baseName path
    by_cases hs : slash ∈ path.val
    · rw [sourceFile, SourceFile.ofFilename_of_mem hs, FileArg.path, piece_eq_some_iff hzero h,
        NamesBase, or_iff_right (not_not.mpr hs)]
    · have hbase : SourceFile.baseName path = path.val := Search.afterLast_eq_self_iff.mpr hs
      rw [FileArg.path, hbase] at h
      rw [sourceFile, SourceFile.ofFilename_of_notMem hs, FileArg.path, hbase,
        piece_eq_some_iff path.property h]
      refine iff_of_true (.inl ⟨toInt_of_lt (by omega), List.prefix_rfl⟩) (.inl hs)

end FileArg

section Statement

variable {env : Env} {st : Statement} {zone : TimeZone} {s : LogThread}

theorem errnoInsertions_text (n : Int32) : (errnoInsertions env n).flatMap Insertion.text =
    if n ≠ 0 then (env.strerror n).val ++
      ascii ([' ', '(', 'e', 'r', 'r', 'n', 'o', ' ', '=', ' '] ++ formatInt n.toInt ++ [')', ' '])
    else [] := by
  unfold errnoInsertions
  split
  · simp only [List.flatMap_cons, List.flatMap_nil, Insertion.text, List.append_nil, ascii_append,
      List.append_assoc]
  · rfl

theorem details_eq : (errnoInsertions env (st.args.savedErrno env) ++ st.args.insertions).flatMap
    Insertion.text = st.details env := by
  rw [List.flatMap_append, errnoInsertions_text, Statement.details]
  congr 1
  cases st.args with
  | func l name =>
    cases name with
    | some name => rfl
    | none => rfl
  | _ => rfl

theorem body_eq : st.body env = (st.before env).flatMap Insertion.text ++
    SourceFile.baseName st.file.path ++ st.after.flatMap Insertion.text := by
  have hblank : ascii (':' :: (formatInt st.line.toInt ++ ['\n'])) =
      st.after.flatMap Insertion.text := by
    simp only [Statement.after, List.flatMap_cons, List.flatMap_nil, Insertion.text]
    rw [← List.singleton_append, ascii_append, ascii_append]
    rfl
  rw [Statement.body, Statement.before, List.flatMap_cons, List.flatMap_cons, List.flatMap_append,
    List.flatMap_append, details_eq, hblank, tidString_eq, ascii_append]
  simp only [List.flatMap_singleton, Insertion.text, List.append_assoc]

/-- What a statement needs for a complete record: the time can be formatted, no pointer is inserted,
the source file is named by its base name, and the memory of `level_` happens to tell whether the
level is `FATAL`. -/
structure Statement.Proper (s : LogThread) (env : Env) (st : Statement) : Prop where
  formattable : s.Formattable (.record env.time)
  pointers : ∀ x ∈ st.insertions, x.isPointer = false
  base : st.file.NamesBase
  level : env.levelMemory = LogLevel.fatal.value ↔ st.args.logLevel = .fatal

theorem text_le_flatMap {x : Insertion} {xs : List Insertion} (h : x ∈ xs) :
    x.text.length ≤ (xs.flatMap Insertion.text).length :=
  (List.sublist_flatten_of_mem (List.mem_map_of_mem h)).length_le

theorem before_pointers (h : ∀ x ∈ st.insertions, x.isPointer = false) :
    ∀ x ∈ st.before env, x.isPointer = false := by
  have herrno : ∀ n, ∀ x ∈ errnoInsertions env n, x.isPointer = false := by
    intro n x hx
    unfold errnoInsertions at hx
    split at hx
    · simp only [List.mem_cons, List.not_mem_nil, or_false] at hx
      rcases hx with rfl | rfl | rfl | rfl <;> rfl
    · cases hx
  have hargs : ∀ x ∈ st.args.insertions, x.isPointer = false := by
    intro x hx
    cases hst : st.args with
    | func l name =>
      rw [hst] at hx
      rcases List.mem_pair.mp hx with rfl | rfl <;> rfl
    | _ =>
      rw [hst] at hx
      cases hx
  intro x hx
  simp only [Statement.before, List.mem_cons, List.mem_append, List.not_mem_nil, or_false] at hx
  rcases hx with rfl | rfl | ((hx | hx) | hx) | rfl
  · rfl
  · rfl
  · exact herrno _ x hx
  · exact hargs x hx
  · exact h x hx
  · rfl

theorem after_pointers : ∀ x ∈ st.after, x.isPointer = false := by
  intro x hx
  simp only [Statement.after, List.mem_cons, List.not_mem_nil, or_false] at hx
  rcases hx with rfl | rfl | rfl <;> rfl

theorem execute_complete (hs : s.Inv) (h : st.Proper s env)
    (hlen : ∀ record, st.record env s.zone = .ok record → record.length < kSmallBuffer) :
    Yields (execute s env st) (st.Complete env s.zone) := by
  obtain ⟨⟨cache, stream⟩, htime, -, text, htext, hstream⟩ :=
    hs.formatTime_eq h.formattable FixedBuffer.new (by decide)
  have hrecord : st.record env s.zone = .ok (ascii text ++ st.body env) := by
    rw [Statement.record, htext]
    rfl
  have hfit := hlen _ hrecord
  rw [body_eq, List.length_append, List.length_append, List.length_append] at hfit
  have hbase := (FileArg.namesBase_iff (by omega)).mpr h.base
  have hstream' : stream.content = ascii text := hstream
  rw [execute_eq, htime, ok_bind]
  refine yields_bind (insertAll_fits (before_pointers h.pointers) ?_) fun b hb => ?_
  · rw [hstream']
    omega
  have hb' := congrArg List.length hb
  rw [List.length_append, hstream'] at hb'
  refine yields_bind (insertFile_fits st.file.size_bounds hbase (by omega)) fun c hc => ?_
  have hc' := congrArg List.length hc
  rw [List.length_append] at hc'
  refine yields_bind (insertAll_fits after_pointers (by omega)) fun d hd => ?_
  refine yields_pure.mpr ⟨_, hrecord, ?_⟩
  have hcontent : d.content = ascii text ++ st.body env := by
    rw [hd, hc, hb, hstream', body_eq]
    simp only [List.append_assoc]
  rw [hcontent]
  congr 1
  by_cases hfatal : st.args.logLevel = .fatal
  · rw [if_pos hfatal, if_pos (h.level.mpr hfatal)]
  · rw [if_neg hfatal, if_neg fun hlevel => hfatal (h.level.mp hlevel)]

theorem execute_proper (hs : s.Inv)
    (hlen : ∀ record, st.record env s.zone = .ok record → record.length < kSmallBuffer)
    (h : Yields (execute s env st) (st.Complete env s.zone)) : st.Proper s env := by
  obtain ⟨effects, hexec, record, hrecord, heffects⟩ := h
  rw [execute_eq] at hexec
  obtain ⟨r, htime, hexec⟩ := bind_eq_ok hexec
  have hf : s.Formattable (.record env.time) := by
    by_contra hf
    exact hs.formatTime_stops hf _ (fun _ => True) ⟨r, htime, trivial⟩
  obtain ⟨-, text, htext, hstream⟩ := (hs.formatTime_eq hf _ (by decide)).of_eq htime
  obtain ⟨b, hb, hexec⟩ := bind_eq_ok hexec
  obtain ⟨c, hc, hexec⟩ := bind_eq_ok hexec
  obtain ⟨d, hd, hexec⟩ := bind_eq_ok hexec
  have hrecord' : record = ascii text ++ st.body env := by
    have heq : st.record env s.zone = .ok (ascii text ++ st.body env) := by
      rw [Statement.record, htext]
      rfl
    exact Except.ok.inj (hrecord.symm.trans heq)
  have hfit := hlen _ hrecord
  rw [hrecord', body_eq, List.length_append, List.length_append, List.length_append] at hfit
  have hb' := insertAll_stored (fun x hx => by have hle := text_le_flatMap hx; omega) hb
  obtain ⟨name, hname, hc'⟩ := insertFile_piece st.file.size_bounds hc
  have hd' := (insertAll_stored (fun x hx => by have hle := text_le_flatMap hx; omega) hd)
  have hafter : st.after.flatMap stored = st.after.flatMap Insertion.text :=
    List.flatMap_congr fun x hx => stored_eq (after_pointers x hx)
  obtain ⟨hout, hrest⟩ := List.cons.inj ((Except.ok.inj hexec).trans heffects)
  have hcontent := Effect.output.inj hout
  rw [hd', hc', hb', hstream, hafter, hrecord', body_eq] at hcontent
  simp only [FixedBuffer.new, List.nil_append, List.append_assoc] at hcontent
  obtain ⟨hbefore, hnames⟩ := stored_cancel (List.append_cancel_left hcontent)
  refine ⟨hf, fun x hx => hbefore x ?_, ?_, ?_⟩
  · simp [Statement.before, hx]
  · refine (FileArg.namesBase_iff (by omega)).mp ?_
    rw [hname, List.append_cancel_right hnames]
  · split_ifs at hrest with hmem hfatal hfatal
    · exact iff_of_true hmem hfatal
    · exact iff_of_false hmem hfatal

/-- A statement hands over its complete record once and aborts exactly for the level `FATAL` exactly
when it is proper, provided that the record is shorter than the buffer. -/
theorem log_statement_complete_iff (labels : List LogLabel)
    (hs : run LogThread.step LogThread.new labels = .ok s)
    (hlen : ∀ record, st.record env s.zone = .ok record → record.length < kSmallBuffer) :
    Yields (execute s env st) (st.Complete env s.zone) ↔ st.Proper s env := by
  have hinv := LogThread.reached_inv hs
  exact ⟨execute_proper hinv hlen, fun h => execute_complete hinv h hlen⟩

theorem length_record (hz : zone.valid = false) {record : List Byte}
    (h : st.record env zone = .ok record) : record.length = 26 + (st.body env).length := by
  rw [Statement.record, uncachedText_of_invalid hz] at h
  rw [← Except.ok.inj h, List.length_append, length_ascii, List.length_append,
    length_secondText (RecordTime.fields env.time), length_formatMicros]

/-- The first record of a thread, made by `LOG_INFO` where the memory of `level_` holds 0. -/
theorem log_statement_complete_info :
    ∃ env st, env.levelMemory = 0 ∧ st.args = .plain ∧
      Yields (execute LogThread.new env st) (st.Complete env ⟨none⟩) := by
  refine ⟨⟨⟨⟨1700000000000000⟩, by decide, by decide +kernel⟩, 42, 0, fun _ => ⟨[], by decide⟩, 0⟩,
    ⟨.plain, .array ⟨ascii ['a', '.', 'c', 'c'], by decide⟩ (by decide), 3,
      [.string (ascii ['x'])]⟩, rfl, rfl, ?_⟩
  refine (log_statement_complete_iff [] rfl fun record hrecord => ?_).mpr ⟨?_, ?_, ?_, ?_⟩
  · rw [length_record rfl hrecord]
    decide +kernel
  · exact ⟨rfl, fun _ => by decide⟩
  · decide
  · exact .inl (by decide)
  · decide

/-- `LOG_FATAL`, where the memory of `level_` holds 0. -/
theorem fatal_statement_survives :
    ¬ ∀ (labels : List LogLabel) (s : LogThread) (env : Env) (st : Statement),
      run LogThread.step LogThread.new labels = .ok s →
      (∀ record, st.record env s.zone = .ok record → record.length < kSmallBuffer) →
      Yields (execute s env st) (st.Complete env s.zone) := by
  intro h
  let env : Env := ⟨⟨⟨1700000000000000⟩, by decide, by decide +kernel⟩, 42, 0,
    fun _ => ⟨[], by decide⟩, 0⟩
  let st : Statement :=
    ⟨.level .fatal, .array ⟨ascii ['a', '.', 'c', 'c'], by decide⟩ (by decide), 3, []⟩
  have hlen : ∀ record, st.record env LogThread.new.zone = .ok record →
      record.length < kSmallBuffer := by
    intro record hrecord
    rw [length_record rfl hrecord]
    decide +kernel
  have hproper := execute_proper LogThread.new_inv hlen (h [] .new env st rfl hlen)
  exact absurd (hproper.level.mpr rfl) (by decide)

end Statement

end Logger

end Dwater
