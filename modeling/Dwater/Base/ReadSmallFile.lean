import Dwater.Base.Types

/-! # Reading a small file

`ReadToString` reads the beginning of a file into a string, however short the reads are. It takes
the descriptor 0 for a file that could not be opened, and it reports the size of every file that is
not a regular one.
-/

set_option autoImplicit false
namespace Dwater

/-- What `S_ISREG` and `S_ISDIR` tell from `st_mode`. -/
inductive FileType
  | regular
  | directory
  | other
  deriving DecidableEq, Repr

structure FileStat where
  type : FileType
  size : ℤ
  mtime : ℤ
  ctime : ℤ
  deriving DecidableEq, Repr

/-- What the system answers for an open file: `fstat`, and `read` at an offset for a number of
bytes, with `errno` where they fail. Every `read` that is followed by another one moves the
offset on, so that the offset tells the reads apart. -/
structure FileSystem where
  fstat : Except ℤ FileStat
  read : ℕ → ℕ → Except ℤ (List Byte)

def eisdir : ℤ := 21

structure ReadSmallFile where
  fd : ℤ
  err : ℤ
  deriving DecidableEq, Repr

/-- The string and the integers that `ReadToString` writes to; a null pointer is `none`. -/
structure ReadTargets where
  content : List Byte
  fileSize : Option ℤ
  modifyTime : Option ℤ
  createTime : Option ℤ
  deriving DecidableEq, Repr

namespace ReadSmallFile

def kbufferSize : ℕ := 64 * 1024

def new (fd errno : ℤ) : ReadSmallFile := ⟨fd, if fd < 0 then errno else 0⟩

/-- The part of `ReadToString` that calls `fstat`. -/
def readStat (fstat : Except ℤ FileStat) (err : ℤ) (out : ReadTargets) : ℤ × ReadTargets :=
  match out.fileSize with
  | none => (err, out)
  | some _ =>
    match fstat with
    | .error errno => (errno, out)
    | .ok statbuf =>
      let (err, out) :=
        if statbuf.type ≠ .regular then (err, { out with fileSize := some statbuf.size })
        else if statbuf.type = .directory then (eisdir, out)
        else (err, out)
      (err, { out with
        modifyTime := out.modifyTime.map fun _ => statbuf.mtime
        createTime := out.createTime.map fun _ => statbuf.ctime })

def readLoop (read : ℕ → ℕ → Except ℤ (List Byte)) (maxSize : ℕ) (err : ℤ) (content : List Byte) :
    ℤ × List Byte :=
  if content.length < maxSize then
    let toRead := min (maxSize - content.length) kbufferSize
    match read content.length toRead with
    | .error errno => (errno, content)
    | .ok buf =>
      if buf.length = 0 then (err, content) else readLoop read maxSize err (content ++ buf)
  else (err, content)
termination_by maxSize - content.length
decreasing_by
  rw [List.length_append]
  omega

def readToString (file : ReadSmallFile) (sys : FileSystem) (maxSize : Int32) (out : ReadTargets) :
    ℤ × ReadTargets :=
  if file.fd > 0 then
    let (err, out) := readStat sys.fstat file.err { out with content := [] }
    let (err, content) := readLoop sys.read (toSizeT maxSize.toInt) err out.content
    (err, { out with content := content })
  else (file.err, out)

end ReadSmallFile

def readFile (fd errno : ℤ) (sys : FileSystem) (maxSize : Int32) (out : ReadTargets) :
    ℤ × ReadTargets :=
  (ReadSmallFile.new fd errno).readToString sys maxSize out

/-- An open regular file. A read returns one byte or more up to the number that is asked for, and
nothing only at the end of the file. -/
structure RegularFile where
  fd : ℕ
  contents : List Byte
  mtime : ℤ
  ctime : ℤ
  read : ℕ → ℕ → List Byte
  read_eq : ∀ pos count, 0 < count → pos ≤ contents.length →
    ∃ n, 0 < n ∧ n ≤ count ∧ read pos count = (contents.drop pos).take n

namespace RegularFile

def system (file : RegularFile) : FileSystem where
  fstat := .ok ⟨.regular, file.contents.length, file.mtime, file.ctime⟩
  read pos count := .ok (file.read pos count)

/-- The file is read: the string has its first `maxSize` bytes, and its size is reported if that is
asked for. -/
def Reads (file : RegularFile) (maxSize : Int32) (out : ReadTargets) : Prop :=
  ∃ out', readFile file.fd 0 file.system maxSize out = (0, out') ∧
    out'.content = file.contents.take maxSize.toInt.toNat ∧
    ∀ size, out'.fileSize = some size → size = file.contents.length

variable {file : RegularFile} {maxSize : ℕ} {content : List Byte}

/-- A read goes on from the bytes that are there, and it returns nothing only when they are all. -/
theorem read_spec (file : RegularFile) {count : ℕ} (hcount : 0 < count)
    (h : content = file.contents.take content.length) :
    content ++ file.read content.length count =
        file.contents.take (content ++ file.read content.length count).length ∧
      (file.read content.length count).length ≤ count ∧
      ((file.read content.length count).length = 0 → content = file.contents) := by
  have hlen : content.length ≤ file.contents.length := by
    have hlength := congrArg List.length h
    rw [List.length_take] at hlength
    omega
  obtain ⟨n, hpos, hn, hread⟩ := file.read_eq content.length count hcount hlen
  have hnext : content ++ (file.contents.drop content.length).take n =
      file.contents.take (content.length + n) := by
    rw [List.take_add, ← h]
  rw [hread]
  refine ⟨?_, ?_, ?_⟩
  · rw [hnext, List.length_take]
    exact List.take_eq_take_min
  · rw [List.length_take]
    omega
  · intro hzero
    rw [List.length_take, List.length_drop] at hzero
    rw [h, List.take_of_length_le (by omega)]

theorem readLoop_eq (file : RegularFile) (err : ℤ)
    (h : content = file.contents.take content.length) (hle : content.length ≤ maxSize) :
    ReadSmallFile.readLoop file.system.read maxSize err content =
      (err, file.contents.take maxSize) := by
  have hk : 0 < ReadSmallFile.kbufferSize := by decide
  induction content using ReadSmallFile.readLoop.induct file.system.read maxSize with
  | case1 content hlt toRead errno hread => cases hread
  | case2 content hlt toRead buf hread hbuf =>
    have hcount : 0 < toRead := by omega
    obtain ⟨-, -, hend⟩ := file.read_spec hcount h
    rw [ReadSmallFile.readLoop, if_pos hlt]
    dsimp only
    rw [hread]
    dsimp only
    rw [if_pos hbuf]
    cases hread
    rw [hend hbuf] at hlt ⊢
    rw [List.take_of_length_le (Nat.le_of_lt hlt)]
  | case3 content hlt toRead buf hread hbuf ih =>
    have hcount : 0 < toRead := by omega
    obtain ⟨hnext, hsize, -⟩ := file.read_spec hcount h
    rw [ReadSmallFile.readLoop, if_pos hlt]
    dsimp only
    rw [hread]
    dsimp only
    rw [if_neg hbuf]
    cases hread
    apply ih hnext
    rw [List.length_append]
    omega
  | case4 content hge =>
    have heq : content.length = maxSize := by omega
    rw [ReadSmallFile.readLoop, if_neg hge, ← heq, ← h]

theorem readStat_regular (file : RegularFile) (err : ℤ) (out : ReadTargets) :
    ∃ out', ReadSmallFile.readStat file.system.fstat err out = (err, out') ∧
      out'.content = out.content ∧ out'.fileSize = out.fileSize := by
  obtain ⟨content, fileSize, modifyTime, createTime⟩ := out
  cases fileSize with
  | none => exact ⟨_, rfl, rfl, rfl⟩
  | some size => exact ⟨_, rfl, rfl, rfl⟩

theorem readFile_of_pos (file : RegularFile) (h : 0 < file.fd) {maxSize : Int32}
    (hmax : 0 ≤ maxSize.toInt) (out : ReadTargets) :
    ∃ out', readFile file.fd 0 file.system maxSize out = (0, out') ∧
      out'.content = file.contents.take maxSize.toInt.toNat ∧ out'.fileSize = out.fileSize := by
  have hsize : toSizeT maxSize.toInt = maxSize.toInt.toNat := by
    have hlt := maxSize.toInt_lt
    rw [toSizeT]
    omega
  obtain ⟨out', hstat, hcontent, hfile⟩ := readStat_regular file 0 { out with content := [] }
  have hloop : ReadSmallFile.readLoop file.system.read maxSize.toInt.toNat 0 [] =
      (0, file.contents.take maxSize.toInt.toNat) := readLoop_eq file 0 rfl (Nat.zero_le _)
  refine ⟨{ out' with content := file.contents.take maxSize.toInt.toNat }, ?_, rfl, hfile⟩
  rw [readFile, ReadSmallFile.new, if_neg (by omega), ReadSmallFile.readToString,
    if_pos (Int.natCast_pos.mpr h), hstat, hsize]
  dsimp only
  rw [hcontent, hloop]

theorem readFile_of_zero (file : RegularFile) (h : file.fd = 0) (maxSize : Int32)
    (out : ReadTargets) :
    readFile file.fd 0 file.system maxSize out = (0, out) := by
  rw [h]
  rfl

/-- `ReadToString` reads a regular file exactly when its descriptor is positive or the string
holds the right bytes before, and the integer for the size, if there is one, holds the size
before. -/
theorem readToString_reads_iff (file : RegularFile) (maxSize : Int32) (out : ReadTargets)
    (h : 0 ≤ maxSize.toInt) :
    file.Reads maxSize out ↔
      (0 < file.fd ∨ out.content = file.contents.take maxSize.toInt.toNat) ∧
        ∀ size, out.fileSize = some size → size = file.contents.length := by
  rcases Nat.eq_zero_or_pos file.fd with hzero | hpos
  · have hread := readFile_of_zero file hzero maxSize out
    constructor
    · rintro ⟨out', hout, hcontent, hsize⟩
      obtain rfl : out = out' := (Prod.mk.inj (hread.symm.trans hout)).2
      exact ⟨.inr hcontent, hsize⟩
    · rintro ⟨hcontent, hsize⟩
      exact ⟨out, hread, hcontent.resolve_left (by omega), hsize⟩
  · obtain ⟨out₁, hread, hcontent, hfile⟩ := readFile_of_pos file hpos h out
    constructor
    · rintro ⟨out', hout, -, hsize⟩
      obtain rfl : out₁ = out' := (Prod.mk.inj (hread.symm.trans hout)).2
      exact ⟨.inl hpos, hfile ▸ hsize⟩
    · rintro ⟨-, hsize⟩
      exact ⟨out₁, hread, hcontent, hfile.symm ▸ hsize⟩

def abc (fd : ℕ) : RegularFile where
  fd := fd
  contents := ascii ['a', 'b', 'c']
  mtime := 0
  ctime := 0
  read pos _ := ((ascii ['a', 'b', 'c']).drop pos).take 1
  read_eq _ _ hcount _ := ⟨1, Nat.one_pos, hcount, rfl⟩

theorem readToString_reads_iff_abc :
    (abc 3).Reads 2 ⟨[], some 0, none, none⟩ ↔
      (0 < (abc 3).fd ∨ ([] : List Byte) = (abc 3).contents.take (2 : Int32).toInt.toNat) ∧
        ∀ size, some (0 : ℤ) = some size → size = (abc 3).contents.length :=
  readToString_reads_iff (abc 3) 2 ⟨[], some 0, none, none⟩ (by decide)

/-- The size is not reported, and nothing is read from the descriptor 0. -/
theorem size_not_reported :
    (readFile 3 0 (abc 3).system 0 ⟨[], some 7, none, none⟩).2.fileSize = some 7 ∧
      readFile 0 0 (abc 0).system 2 ⟨[], none, none, none⟩ = (0, ⟨[], none, none, none⟩) ∧
      ¬ (abc 3).Reads 0 ⟨[], some 7, none, none⟩ ∧ ¬ (abc 0).Reads 2 ⟨[], none, none, none⟩ := by
  have hmax : 0 ≤ (0 : Int32).toInt := by decide
  obtain ⟨out, hread, -, hfile⟩ :=
    readFile_of_pos (abc 3) (by decide) hmax ⟨[], some 7, none, none⟩
  have hzero := readFile_of_zero (abc 0) rfl 2 ⟨[], none, none, none⟩
  refine ⟨(congrArg (fun r => r.2.fileSize) hread).trans hfile, hzero, ?_, ?_⟩
  · rintro ⟨out', hout, -, hsize⟩
    obtain rfl : out = out' := (Prod.mk.inj (hread.symm.trans hout)).2
    have hseven := hsize 7 hfile
    revert hseven
    decide
  · rintro ⟨out', hout, hcontent, -⟩
    obtain rfl := (Prod.mk.inj (hzero.symm.trans hout)).2
    revert hcontent
    decide

end RegularFile

end Dwater
