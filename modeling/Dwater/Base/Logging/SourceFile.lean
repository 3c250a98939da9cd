import Mathlib.Data.List.Count
import Dwater.Base.Types
import Dwater.Lib.Search

/-! # Names of source files

A log record names its source file by a pointer and a length. Both constructors look for the first
slash of the path, and the one that is given a pointer sets the length only of a path without a
slash. They name the file as its base name does for the paths without a slash, and where the length
happens to be right already for those with a single one.
-/

set_option autoImplicit false
namespace Dwater

abbrev CString := { str : List Byte // 0 ∉ str }

namespace Logger

def slash : Byte := 47

/-- `SourceFile`: what can be read from `data_` on, and `size_`. -/
structure SourceFile where
  data : List Byte
  size : ℤ
  deriving DecidableEq, Repr

namespace SourceFile

/-- `SourceFile(const char (&arr)[N])`, for an array that holds the path and its terminator. -/
def ofArray (path : CString) : SourceFile :=
  let size : ℤ := path.val.length
  match Search.cut slash path.val with
  | some (before, after) => ⟨after ++ [0], size - (before.length + 1)⟩
  | none => ⟨path.val ++ [0], size⟩

/-- `SourceFile(const char* filename)`, in memory where `size_` has the value `stale`. -/
def ofFilename (filename : CString) (stale : Int32) : SourceFile :=
  match Search.cut slash filename.val with
  | some (_, after) => ⟨after ++ [0], stale.toInt⟩
  | none => ⟨filename.val ++ [0], toInt filename.val.length⟩

def text (file : SourceFile) : Option (List Byte) :=
  if 0 ≤ file.size ∧ file.size ≤ file.data.length then some (file.data.take file.size.toNat)
  else none

def baseName (path : CString) : List Byte := Search.afterLast slash path.val

def afterFirst (path : CString) : List Byte :=
  match Search.cut slash path.val with
  | some (_, after) => after
  | none => path.val

variable {path : CString} {stale : Int32}

theorem text_eq_some_iff {name base : List Byte} {size : ℤ} (h : 0 ∉ base) :
    text ⟨name ++ [0], size⟩ = some base ↔ size = base.length ∧ base <+: name := by
  have hdata : (name ++ [0]).length = name.length + 1 := List.length_append
  unfold text
  dsimp only
  constructor
  · intro htext
    split at htext
    · next hsize =>
      have htake := Option.some.inj htext
      have hlen := congrArg List.length htake
      rw [List.length_take] at hlen
      refine ⟨by omega, ?_⟩
      have hstart : base <+: name ++ [0] := htake ▸ List.take_prefix ..
      rcases List.prefix_concat_iff.mp hstart with rfl | hstart
      · exact absurd (List.mem_append_right name (List.mem_singleton_self 0)) h
      · exact hstart
    · cases htext
  · rintro ⟨rfl, hstart⟩
    have hle := hstart.length_le
    rw [if_pos ⟨Int.natCast_nonneg _, by omega⟩, Int.toNat_natCast,
      List.take_append_of_le_length hle, ← List.prefix_iff_eq_take.mp hstart]

theorem slash_cases (path : CString) :
    (slash ∉ path.val ∧ Search.cut slash path.val = none ∧ afterFirst path = path.val ∧
      baseName path = path.val) ∨
    ∃ before after, slash ∉ before ∧ path.val = before ++ slash :: after ∧
      Search.cut slash path.val = some (before, after) ∧ afterFirst path = after ∧
      baseName path = Search.afterLast slash after := by
  cases hcut : Search.cut slash path.val with
  | none =>
    have hmem := Search.cut_eq_none_iff.mp hcut
    exact .inl ⟨hmem, rfl, by rw [afterFirst, hcut], Search.afterLast_eq_self_iff.mpr hmem⟩
  | some parts =>
    obtain ⟨before, after⟩ := parts
    obtain ⟨hpath, hbefore⟩ := Search.cut_eq_some hcut
    refine .inr ⟨before, after, hbefore, hpath, rfl, by rw [afterFirst, hcut], ?_⟩
    rw [baseName, hpath, Search.afterLast_append_cons]

theorem zero_notMem_baseName (path : CString) : 0 ∉ baseName path :=
  fun h => path.property ((Search.afterLast_suffix slash path.val).subset h)

theorem afterFirst_eq_iff : afterFirst path = baseName path ↔ path.val.count slash ≤ 1 := by
  rcases slash_cases path with ⟨hmem, -, hfirst, hbase⟩ |
    ⟨before, after, hbefore, hpath, -, hfirst, hbase⟩
  · rw [hfirst, hbase, List.count_eq_zero_of_not_mem hmem]
    exact iff_of_true rfl (Nat.zero_le 1)
  · have hcount : path.val.count slash = after.count slash + 1 := by
      rw [hpath, List.count_append, List.count_eq_zero_of_not_mem hbefore, List.count_cons_self,
        Nat.zero_add]
    rw [hfirst, hbase, eq_comm, Search.afterLast_eq_self_iff, hcount, ← List.count_eq_zero]
    omega

theorem length_afterFirst_le (path : CString) : (afterFirst path).length ≤ path.val.length := by
  rcases slash_cases path with ⟨-, -, hfirst, -⟩ | ⟨before, after, -, hpath, -, hfirst, -⟩
  · rw [hfirst]
  · rw [hfirst, hpath, List.length_append, List.length_cons]
    omega

theorem afterFirst_names_iff :
    ((afterFirst path).length : ℤ) = (baseName path).length ∧ baseName path <+: afterFirst path ↔
      path.val.count slash ≤ 1 := by
  rw [← afterFirst_eq_iff]
  constructor
  · rintro ⟨hlen, hstart⟩
    exact (hstart.eq_of_length (by omega)).symm
  · intro h
    rw [h]
    exact ⟨rfl, List.prefix_rfl⟩

theorem ofArray_eq (path : CString) :
    ofArray path = ⟨afterFirst path ++ [0], (afterFirst path).length⟩ := by
  rcases slash_cases path with ⟨-, hcut, hfirst, -⟩ | ⟨before, after, -, hpath, hcut, hfirst, -⟩
  · rw [ofArray, hcut, hfirst]
  · have hlen : (path.val.length : ℤ) - (before.length + 1) = after.length := by
      rw [hpath, List.length_append, List.length_cons]
      omega
    rw [ofArray, hcut, hfirst, ← hlen]

theorem ofFilename_of_notMem (h : slash ∉ path.val) :
    ofFilename path stale = ⟨path.val ++ [0], toInt path.val.length⟩ := by
  rw [ofFilename, Search.cut_eq_none_iff.mpr h]

theorem ofFilename_of_mem (h : slash ∈ path.val) :
    ofFilename path stale = ⟨afterFirst path ++ [0], stale.toInt⟩ := by
  rcases slash_cases path with ⟨hmem, -⟩ | ⟨before, after, -, -, hcut, hfirst, -⟩
  · exact absurd h hmem
  · rw [ofFilename, hcut, hfirst]

theorem ofArray_names_iff :
    (ofArray path).text = some (baseName path) ↔ path.val.count slash ≤ 1 := by
  rw [ofArray_eq, text_eq_some_iff (zero_notMem_baseName path), afterFirst_names_iff]

theorem ofFilename_names_iff :
    (ofFilename path stale).text = some (baseName path) ↔
      slash ∉ path.val ∧ path.val.length < 2 ^ 31 ∨
      slash ∈ path.val ∧ stale.toInt = (baseName path).length ∧
        baseName path <+: afterFirst path := by
  by_cases h : slash ∈ path.val
  · rw [ofFilename_of_mem h, text_eq_some_iff (zero_notMem_baseName path)]
    simp [h]
  · have hbase : baseName path = path.val := Search.afterLast_eq_self_iff.mpr h
    rw [ofFilename_of_notMem h, text_eq_some_iff (zero_notMem_baseName path), hbase, toInt_eq_iff]
    simp [h]

/-- Both constructors name a source file by its base name exactly when its path has no slash, or a
single one and `size_` happens to have the right value before. -/
theorem base_named_iff (path : CString) (stale : Int32) :
    (ofArray path).text = some (baseName path) ∧
        (ofFilename path stale).text = some (baseName path) ↔
      slash ∉ path.val ∧ path.val.length < 2 ^ 31 ∨
      path.val.count slash = 1 ∧ stale.toInt = (baseName path).length := by
  rw [ofArray_names_iff, ofFilename_names_iff]
  constructor
  · rintro ⟨hcount, hnone | ⟨hmem, hstale, -⟩⟩
    · exact .inl hnone
    · have hpos := List.count_pos_iff.mpr hmem
      exact .inr ⟨by omega, hstale⟩
  · rintro (⟨hmem, hlen⟩ | ⟨hcount, hstale⟩)
    · rw [List.count_eq_zero_of_not_mem hmem]
      exact ⟨Nat.zero_le 1, .inl ⟨hmem, hlen⟩⟩
    · have hmem : slash ∈ path.val := List.count_pos_iff.mp (by omega)
      have hbase := afterFirst_eq_iff.mpr hcount.le
      exact ⟨hcount.le, .inr ⟨hmem, hstale, hbase ▸ List.prefix_rfl⟩⟩

/-- The file `c` in the directory `b` of `a` is named by its path in `a` in one constructor; the
other one leaves a length that is not the one of any name. -/
theorem nested_file_misnamed :
    (ofArray ⟨ascii ['a', '/', 'b', '/', 'c'], by decide⟩).text = some (ascii ['b', '/', 'c']) ∧
      (ofFilename ⟨ascii ['a', '/', 'b', '/', 'c'], by decide⟩ (-1)).text = none ∧
      baseName ⟨ascii ['a', '/', 'b', '/', 'c'], by decide⟩ = ascii ['c'] ∧
      ¬ ∀ (path : CString) (stale : Int32), (ofArray path).text = some (baseName path) ∧
        (ofFilename path stale).text = some (baseName path) := by
  refine ⟨by decide, by decide, by decide, fun h => ?_⟩
  have hname := (h ⟨ascii ['a', '/', 'b', '/', 'c'], by decide⟩ 0).1
  revert hname
  decide

end SourceFile

end Logger

end Dwater
