import Dwater.Base.Logging.LogStream
import Dwater.Lib.Numeral

/-! # Numbers in a log stream

`Convert` finds the digits of an integer in a mirrored table, so that it needs not negate a negative
one. It writes the decimal numeral of every value of every integer type. `ConvertHex` counts the
terminator, and the two are reversed with the digits, so that no pointer is written as its
hexadecimal numeral.
-/

set_option autoImplicit false
namespace Dwater

open Fallible Numeral

/-- The integer types that `operator<<` takes. -/
inductive IntegerType
  | short
  | unsignedShort
  | int
  | unsignedInt
  | long
  | unsignedLong
  | longLong
  | unsignedLongLong
  deriving DecidableEq, Repr

namespace IntegerType

def min : IntegerType → ℤ
  | short => -2 ^ 15
  | int => -2 ^ 31
  | long | longLong => -2 ^ 63
  | unsignedShort | unsignedInt | unsignedLong | unsignedLongLong => 0

def max : IntegerType → ℤ
  | short => 2 ^ 15 - 1
  | unsignedShort => 2 ^ 16 - 1
  | int => 2 ^ 31 - 1
  | unsignedInt => 2 ^ 32 - 1
  | long | longLong => 2 ^ 63 - 1
  | unsignedLong | unsignedLongLong => 2 ^ 64 - 1

def Holds (T : IntegerType) (x : ℤ) : Prop := T.min ≤ x ∧ x ≤ T.max

instance (T : IntegerType) (x : ℤ) : Decidable (T.Holds x) := inferInstanceAs (Decidable (_ ∧ _))

abbrev Value (T : IntegerType) := { v : ℤ // T.Holds v }

/-- The type for which `FormatInteger` calls `Convert`; the short types are cast. -/
def formatted : IntegerType → IntegerType
  | short => int
  | unsignedShort => unsignedInt
  | T => T

end IntegerType

namespace Convert

/-- `zero[lsd]`, within the table. -/
def digitAt (lsd : ℤ) : Except Fault Byte := do
  check (0 ≤ 9 + lsd ∧ 9 + lsd < digits.length) (.outOfBounds .log_stream_cc 42)
  return zero lsd

theorem natAbs_tdiv_lt {i : ℤ} (h : i.tdiv 10 ≠ 0) : (i.tdiv 10).natAbs < i.natAbs := by
  rw [Int.natAbs_tdiv]
  have hne : i.natAbs ≠ 0 := by
    intro hz
    rw [Int.natAbs_eq_zero.mp hz] at h
    exact h rfl
  exact Nat.div_lt_self (Nat.pos_of_ne_zero hne) (by decide)

/-- The loop of `Convert` with the arithmetic of a type. -/
def loopIn (T : IntegerType) (i : ℤ) : Except Fault (List Byte) := do
  check (T.Holds (i.tmod 10)) (.overflow .log_stream_cc 40)
  check (T.Holds (i.tdiv 10)) (.overflow .log_stream_cc 41)
  let digit ← digitAt (i.tmod 10)
  if _h : i.tdiv 10 = 0 then return [digit]
  else
    let rest ← loopIn T (i.tdiv 10)
    return digit :: rest
termination_by i.natAbs
decreasing_by exact natAbs_tdiv_lt _h

end Convert

def convertIn (T : IntegerType) (value : ℤ) : Except Fault (List Byte × ℕ) := do
  let p ← Convert.loopIn T value
  let p := p ++ if value < 0 then ascii ['-'] else []
  return (p.reverse ++ [0], p.length)

def minus : Byte := 45

def decimalDigit (d : ℕ) : Byte := UInt8.ofNat (48 + d)

def hexDigit (d : ℕ) : Byte := UInt8.ofNat (if d < 10 then 48 + d else 55 + d)

/-- The decimal numeral of an integer, after a sign if it is negative. -/
def IsDecimal (text : List Byte) (v : ℤ) : Prop :=
  ∃ numeral, IsNumeral 10 decimalDigit numeral v.natAbs ∧
    text = (if v < 0 then [minus] else []) ++ numeral

def parseDecimal (text : List Byte) : ℤ :=
  if text.head? = some minus then -(read 10 (fun c => c.toNat - 48) text.tail : ℕ)
  else (read 10 (fun c => c.toNat - 48) text : ℕ)

def IsPointerText (text : List Byte) (v : ℕ) : Prop :=
  ∃ numeral, IsNumeral 16 hexDigit numeral v ∧ text = ascii ['0', 'x'] ++ numeral

namespace IntegerType

variable {T : IntegerType} {x y : ℤ}

theorem min_nonpos (T : IntegerType) : T.min ≤ 0 := by cases T <;> decide

theorem max_nonneg (T : IntegerType) : 0 ≤ T.max := by cases T <;> decide

theorem Holds.of_between (h : T.Holds x) (hy : 0 ≤ y ∧ y ≤ x ∨ x ≤ y ∧ y ≤ 0) : T.Holds y := by
  have hmin := T.min_nonpos
  have hmax := T.max_nonneg
  obtain ⟨h₁, h₂⟩ := h
  constructor <;> omega

theorem Holds.tdiv (h : T.Holds x) : T.Holds (x.tdiv 10) := by
  apply h.of_between
  obtain ⟨n, rfl | rfl⟩ := x.eq_nat_or_neg
  · rw [Int.tdiv_eq_ediv_of_nonneg (Int.natCast_nonneg n)]
    omega
  · rw [Int.neg_tdiv, Int.tdiv_eq_ediv_of_nonneg (Int.natCast_nonneg n)]
    omega

theorem Holds.tmod (h : T.Holds x) : T.Holds (x.tmod 10) := by
  apply h.of_between
  obtain ⟨n, rfl | rfl⟩ := x.eq_nat_or_neg
  · rw [Int.tmod_eq_emod_of_nonneg (Int.natCast_nonneg n)]
    omega
  · rw [Int.neg_tmod, Int.tmod_eq_emod_of_nonneg (Int.natCast_nonneg n)]
    omega

theorem Holds.formatted (h : T.Holds x) : T.formatted.Holds x := by
  obtain ⟨h₁, h₂⟩ := h
  have hmin : T.formatted.min ≤ T.min := by cases T <;> decide
  have hmax : T.max ≤ T.formatted.max := by cases T <;> decide
  exact ⟨hmin.trans h₁, h₂.trans hmax⟩

theorem Holds.natAbs_lt (h : T.Holds x) : x.natAbs < 10 ^ (if x < 0 then 19 else 20) := by
  obtain ⟨h₁, h₂⟩ := h
  have hmin : -2 ^ 63 ≤ T.min := by cases T <;> decide
  have hmax : T.max ≤ 2 ^ 64 - 1 := by cases T <;> decide
  split <;> omega

end IntegerType

namespace Convert

variable {T : IntegerType} {i : ℤ}

theorem digitAt_tmod (i : ℤ) : digitAt (i.tmod 10) = .ok (zero (i.tmod 10)) := by
  have hlt : (i.tmod 10).natAbs < 10 := by
    rw [Int.natAbs_tmod]
    exact Nat.mod_lt _ (by decide)
  have hlen : digits.length = 19 := rfl
  rw [digitAt, check_bind_of_true (by omega)]
  rfl

theorem loopIn_eq (h : T.Holds i) : loopIn T i = .ok (loop i) := by
  induction i using loop.induct with
  | case1 i ih =>
    rw [loopIn, check_bind_of_true h.tmod, check_bind_of_true h.tdiv, digitAt_tmod, loop]
    by_cases hzero : i.tdiv 10 = 0
    · simp [hzero, bind, Except.bind, pure, Except.pure]
    · simp [hzero, ih hzero h.tdiv, bind, Except.bind, pure, Except.pure]

end Convert

theorem convertIn_eq {T : IntegerType} {v : ℤ} (h : T.Holds v) :
    convertIn T v = .ok (convert v) := by
  rw [convertIn, Convert.loopIn_eq h]
  rfl

theorem decimalDigit_eq : ∀ d < 10, UInt8.ofNat (Nat.digitChar d).toNat = decimalDigit d := by
  decide

theorem hexDigit_eq : ∀ d < 16, UInt8.ofNat (Nat.digitChar d).toUpper.toNat = hexDigit d := by
  decide

theorem isNumeral_ascii (n : ℕ) : IsNumeral 10 decimalDigit (ascii (Nat.toDigits 10 n)) n :=
  ((isNumeral_toDigits (by decide) n).map _).congr decimalDigit_eq

theorem isDecimal_formatInt (v : ℤ) : IsDecimal (ascii (formatInt v)) v := by
  refine ⟨_, isNumeral_ascii v.natAbs, ?_⟩
  by_cases hv : v < 0
  · rw [formatInt_of_neg hv, if_pos hv]
    rfl
  · obtain ⟨n, rfl⟩ := Int.eq_ofNat_of_zero_le (not_lt.mp hv)
    rw [formatInt_natCast, if_neg hv, Int.natAbs_natCast, List.nil_append]

theorem IsDecimal.parse {text : List Byte} {v : ℤ} (h : IsDecimal text v) :
    parseDecimal text = v := by
  obtain ⟨numeral, hnum, rfl⟩ := h
  have hread : read 10 (fun c : Byte => c.toNat - 48) numeral = v.natAbs :=
    hnum.read_eq (by decide)
  by_cases hv : v < 0
  · rw [if_pos hv, parseDecimal, List.singleton_append, List.head?_cons, if_pos rfl, List.tail_cons,
      hread]
    omega
  · have hsign : numeral.head? ≠ some minus := by
      intro hhead
      obtain ⟨d, hd, heq⟩ := hnum.mem (List.mem_of_mem_head? hhead)
      revert d
      decide
    rw [if_neg hv, List.nil_append, parseDecimal, if_neg hsign, hread]
    omega

theorem IsDecimal.length_le {T : IntegerType} {text : List Byte} {v : ℤ} (h : IsDecimal text v)
    (hv : T.Holds v) : text.length ≤ 20 := by
  obtain ⟨numeral, hnum, rfl⟩ := h
  have hlt := hv.natAbs_lt
  split at hlt
  · next hneg =>
    have hlen := hnum.length_le (by decide) (by decide) hlt
    rw [if_pos hneg, List.length_append, List.length_singleton]
    omega
  · next hpos =>
    rw [if_neg hpos]
    exact hnum.length_le (by decide) (by decide) hlt

/--
For every value of every type, `Convert` stays within the type and the table, and it writes the
decimal numeral, from which the value can be read back, and a terminator. These are at most 21 bytes
of those that `FormatInteger` asks for.
-/
theorem integers_exact (T : IntegerType) (v : T.Value) :
    Yields (convertIn T.formatted v) fun r => r = convert v ∧
      ∃ text, r = (text ++ [0], text.length) ∧ IsDecimal text v ∧ parseDecimal text = v ∧
        (text ++ [0]).length ≤ 21 ∧ 21 ≤ kMaxNumericSize := by
  refine ⟨convert v, convertIn_eq v.property.formatted, rfl, ascii (formatInt v), convert_eq v, ?_⟩
  have hdec := isDecimal_formatInt v.val
  refine ⟨hdec, hdec.parse, ?_, by decide⟩
  rw [List.length_append]
  exact Nat.succ_le_succ (hdec.length_le v.property)

theorem isPointerText (p : UInt64) : IsPointerText (Insertion.pointer p).text p.toNat := by
  have hnum := (isNumeral_toDigits (b := 16) (by decide) p.toNat).map
    fun c => UInt8.ofNat c.toUpper.toNat
  refine ⟨_, hnum.congr hexDigit_eq, ?_⟩
  simp [Insertion.text, ascii]

theorem IsPointerText.unique {text text' : List Byte} {v : ℕ} (h : IsPointerText text v)
    (h' : IsPointerText text' v) : text = text' := by
  obtain ⟨numeral, hnum, rfl⟩ := h
  obtain ⟨numeral', hnum', rfl⟩ := h'
  rw [hnum.unique (by decide) hnum']

/-- `operator<<(const void*)` never appends the prefix and the hexadecimal numeral of the
address. -/
theorem pointers_never_exact {size : ℕ} (b : FixedBuffer size) (p : UInt64) :
    ¬ Yields (b.insert (.pointer p)) fun b' =>
      ∃ text, IsPointerText text p.toNat ∧ b'.content = b.content ++ text := by
  rintro ⟨b', hb, text, htext, hcontent⟩
  obtain rfl := htext.unique (isPointerText p)
  have hlen := congrArg List.length hcontent
  rw [List.length_append] at hlen
  by_cases ha : (Insertion.pointer p).Accepted size
  · by_cases hfit : b.content.length + (Insertion.pointer p).written ≤ size
    · have hlonger := (FixedBuffer.insert_pointer ha rfl hfit).of_eq hb
      omega
    · exact FixedBuffer.insert_overruns ha (not_le.mp hfit) (fun _ => True) ⟨b', hb, trivial⟩
  · obtain rfl := Except.ok.inj ((b.insert_rejected ha).symm.trans hb)
    have hpos : 0 < (Insertion.pointer p).text.length := by
      rw [Insertion.text, ascii_append, List.length_append]
      exact Nat.lt_of_lt_of_le (by decide : 0 < (ascii ['0', 'x']).length) (Nat.le_add_right ..)
    omega

/-- A terminator is written in front of the digits of the address 255. -/
theorem pointer_with_terminator :
    (∃ b, (FixedBuffer.new : FixedBuffer 4000).insert (.pointer 255) = .ok b ∧
      b.content = ascii ['0', 'x'] ++ [0] ++ ascii ['F', 'F']) ∧
    IsPointerText (ascii ['0', 'x', 'F', 'F']) 255 ∧
    ¬ ∀ (b : FixedBuffer 4000) (p : UInt64), Yields (b.insert (.pointer p)) fun b' =>
      ∃ text, IsPointerText text p.toNat ∧ b'.content = b.content ++ text := by
  have htext : IsPointerText (ascii ['0', 'x', 'F', 'F']) 255 := isPointerText 255
  have hput : Yields ((FixedBuffer.new : FixedBuffer 4000).insert (.pointer 255)) fun b =>
      b.content = ascii ['0', 'x'] ++ [0] ++ ascii ['F', 'F'] := by
    have hconvert : convertHex 255 = (0 :: ascii ['F', 'F'], 3) := by
      rw [convertHex_eq]
      rfl
    have hsize : kMaxNumericSize ≤ (FixedBuffer.new : FixedBuffer 4000).avail := by decide
    rw [FixedBuffer.insert, FixedBuffer.insertPointer, if_pos hsize,
      show UInt64.toNat 255 = 255 from rfl,
      hconvert]
    exact FixedBuffer.put_eq _ _ _ (by decide)
  refine ⟨hput, htext, fun h => ?_⟩
  obtain ⟨b, hb, hcontent⟩ := hput
  obtain ⟨text, htext', hcontent'⟩ := (h .new 255).of_eq hb
  rw [htext'.unique htext, hcontent] at hcontent'
  revert hcontent'
  decide

end Dwater
