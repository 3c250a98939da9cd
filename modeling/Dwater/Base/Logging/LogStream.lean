import Dwater.Base.Format
import Dwater.Base.Logging.FixedBuffer

/-! # Log streams

The insertions into a log stream end in `FixedBuffer::Append` or, for numbers, in a text
that is written at `Current()` before `Add` counts it. Both ask `Avail()` for room, which
does not take into account what the buffer holds already.
-/

set_option autoImplicit false
namespace Dwater

open Fallible

def kMaxNumericSize : ℕ := 32

namespace Convert

def digits : List Byte :=
  ascii ['9', '8', '7', '6', '5', '4', '3', '2', '1', '0', '1', '2', '3', '4', '5', '6', '7', '8',
    '9']

/-- `zero[lsd]`, where `zero` points to the middle of `digits`. -/
def zero (lsd : ℤ) : Byte := digits.getD (9 + lsd).toNat 0

def digitsHex : List Byte :=
  ascii ['0', '1', '2', '3', '4', '5', '6', '7', '8', '9', 'A', 'B', 'C', 'D', 'E', 'F']

/-- The loop of `Convert`, with the least significant digit first. -/
def loop (i : ℤ) : List Byte :=
  zero (i.tmod 10) :: if _h : i.tdiv 10 = 0 then [] else loop (i.tdiv 10)
termination_by i.natAbs
decreasing_by
  rw [Int.natAbs_tdiv]
  have hne : i.natAbs ≠ 0 := by
    rintro hz
    rw [Int.natAbs_eq_zero] at hz
    subst hz
    contradiction
  exact Nat.div_lt_self (Nat.pos_of_ne_zero hne) (by decide)

def loopHex (i : ℕ) : List Byte :=
  digitsHex.getD (i % 16) 0 :: if i / 16 = 0 then [] else loopHex (i / 16)

end Convert

/-- `Convert`: what it leaves in `buf`, and the length it returns. -/
def convert (value : ℤ) : List Byte × ℕ :=
  let p := Convert.loop value ++ if value < 0 then ascii ['-'] else []
  (p.reverse ++ [0], p.length)

/-- `ConvertHex`: the terminator is there before the digits are reversed. -/
def convertHex (value : ℕ) : List Byte × ℕ :=
  let p := Convert.loopHex value ++ [0]
  (p.reverse, p.length)

/-- What `snprintf` writes for a floating point number, or for the argument of a `Format`. -/
abbrev NumberText := { text : List Byte // text ≠ [] ∧ text.length < 32 }

/-- What is inserted. A `const char*` is null or points to these bytes and a terminator. -/
inductive Insertion
  | bool (v : Bool)
  | short (v : Int16)
  | unsignedShort (v : UInt16)
  | int (v : Int32)
  | unsignedInt (v : UInt32)
  | long (v : Int64)
  | unsignedLong (v : UInt64)
  | longLong (v : Int64)
  | unsignedLongLong (v : UInt64)
  | pointer (p : UInt64)
  | float (v : NumberText)
  | double (v : NumberText)
  | char (v : Byte)
  | cString (str : Option (List Byte))
  | string (v : List Byte)
  | stringPiece (v : List Byte)
  | buffer (v : List Byte)
  | format (text : NumberText)
  | append (data : List Byte)
  deriving DecidableEq

namespace FixedBuffer

variable {size : ℕ}

def put (b : FixedBuffer size) (stored : List Byte) (len line : ℕ) :
    Except Fault (FixedBuffer size) :=
  if h : (b.content ++ stored).length ≤ size then
    .ok ⟨b.content ++ stored.take len, by
      simp only [List.length_append, List.length_take] at h ⊢
      omega⟩
  else .error (.outOfBounds .log_stream_cc line)

def formatInteger (b : FixedBuffer size) (v : ℤ) : Except Fault (FixedBuffer size) :=
  if kMaxNumericSize ≤ b.avail then b.put (convert v).1 (convert v).2 42 else .ok b

def insertPointer (b : FixedBuffer size) (p : ℕ) : Except Fault (FixedBuffer size) :=
  if kMaxNumericSize ≤ b.avail then
    b.put (ascii ['0', 'x'] ++ (convertHex p).1) ((convertHex p).2 + 2) 59
  else .ok b

def insertDouble (b : FixedBuffer size) (text : List Byte) : Except Fault (FixedBuffer size) :=
  if kMaxNumericSize ≤ b.avail then b.put (text ++ [0]) text.length 257 else .ok b

def insert (b : FixedBuffer size) : Insertion → Except Fault (FixedBuffer size)
  | .bool v => b.append (if v then ascii ['1'] else ascii ['0'])
  | .short v => b.formatInteger v.toInt
  | .unsignedShort v => b.formatInteger v.toNat
  | .int v => b.formatInteger v.toInt
  | .unsignedInt v => b.formatInteger v.toNat
  | .long v => b.formatInteger v.toInt
  | .unsignedLong v => b.formatInteger v.toNat
  | .longLong v => b.formatInteger v.toInt
  | .unsignedLongLong v => b.formatInteger v.toNat
  | .pointer p => b.insertPointer p.toNat
  | .float v => b.insertDouble v.val
  | .double v => b.insertDouble v.val
  | .char v => b.append [v]
  | .cString (some str) => b.append str
  | .cString none => b.append (ascii ['(', 'n', 'u', 'l', 'l', ')'])
  | .string v => b.append v
  | .stringPiece v => b.append v
  | .buffer v => b.append v
  | .format text => b.append text.val
  | .append data => b.append data

end FixedBuffer

namespace Insertion

def text : Insertion → List Byte
  | bool v => if v then ascii ['1'] else ascii ['0']
  | short v => ascii (formatInt v.toInt)
  | unsignedShort v => ascii (formatInt v.toNat)
  | int v => ascii (formatInt v.toInt)
  | unsignedInt v => ascii (formatInt v.toNat)
  | long v => ascii (formatInt v.toInt)
  | unsignedLong v => ascii (formatInt v.toNat)
  | longLong v => ascii (formatInt v.toInt)
  | unsignedLongLong v => ascii (formatInt v.toNat)
  | pointer p => ascii (['0', 'x'] ++ (Nat.toDigits 16 p.toNat).map Char.toUpper)
  | float v => v.val
  | double v => v.val
  | char v => [v]
  | cString (some str) => str
  | cString none => ascii ['(', 'n', 'u', 'l', 'l', ')']
  | string v => v
  | stringPiece v => v
  | buffer v => v
  | format text => text.val
  | append data => data

/-- The insertion is written at `Current()` after the test for `k_max_numeric_size`. -/
def numeric : Insertion → Bool
  | short _ | unsignedShort _ | int _ | unsignedInt _ | long _ | unsignedLong _ | longLong _
  | unsignedLongLong _ | pointer _ | float _ | double _ => true
  | _ => false

def isPointer : Insertion → Bool
  | pointer _ => true
  | _ => false

/-- `Avail()` leads the insertion to write. -/
def Accepted (size : ℕ) (x : Insertion) : Prop :=
  if x.numeric then kMaxNumericSize ≤ size else x.text.length < size

/-- How many bytes an accepted insertion writes: numbers are terminated. -/
def written (x : Insertion) : ℕ := if x.numeric then x.text.length + 1 else x.text.length

end Insertion

theorem ascii_append (xs ys : List Char) : ascii (xs ++ ys) = ascii xs ++ ascii ys :=
  List.map_append

namespace Convert

theorem zero_eq : ∀ k < 10, zero (k : ℕ) = UInt8.ofNat (Nat.digitChar k).toNat ∧
    zero (-(k : ℕ)) = UInt8.ofNat (Nat.digitChar k).toNat := by
  decide

/-- Negative remainders find their digit on the other side of `zero`. -/
theorem zero_tmod (i : ℤ) :
    zero (i.tmod 10) = UInt8.ofNat (Nat.digitChar (i.natAbs % 10)).toNat := by
  have hlt : i.natAbs % 10 < 10 := Nat.mod_lt _ (by decide)
  have habs : (i.tmod 10).natAbs = i.natAbs % 10 := Int.natAbs_tmod i 10
  obtain ⟨hpos, hneg⟩ := zero_eq _ hlt
  rcases Int.natAbs_eq (i.tmod 10) with h | h
  · rw [h, habs, hpos]
  · rw [h, habs, hneg]

theorem loop_eq (i : ℤ) : loop i = (ascii (Nat.toDigits 10 i.natAbs)).reverse := by
  induction i using loop.induct with
  | case1 i ih =>
    have habs : (i.tdiv 10).natAbs = i.natAbs / 10 := Int.natAbs_tdiv i 10
    by_cases h : i.tdiv 10 = 0
    · have hlt : i.natAbs < 10 := by
        rw [h, Int.natAbs_zero] at habs
        omega
      rw [loop, dif_pos h, zero_tmod, Nat.toDigits_of_lt_base hlt, Nat.mod_eq_of_lt hlt]
      rfl
    · have hge : 10 ≤ i.natAbs := by
        rw [← Int.natAbs_eq_zero, habs] at h
        omega
      rw [loop, dif_neg h, ih h, zero_tmod, habs, Nat.toDigits_of_base_le (by decide) hge,
        ascii_append, List.reverse_append]
      rfl

theorem digitsHex_eq : ∀ k < 16,
    digitsHex.getD k 0 = UInt8.ofNat (Nat.digitChar k).toUpper.toNat := by
  decide

theorem loopHex_eq (i : ℕ) :
    loopHex i = (ascii ((Nat.toDigits 16 i).map Char.toUpper)).reverse := by
  induction i using loopHex.induct with
  | case1 i ih =>
    have hdigit := digitsHex_eq _ (Nat.mod_lt i (by decide))
    by_cases h : i / 16 = 0
    · have hlt : i < 16 := by omega
      rw [loopHex, if_pos h, hdigit, Nat.toDigits_of_lt_base hlt, Nat.mod_eq_of_lt hlt]
      rfl
    · have hge : 16 ≤ i := by omega
      rw [loopHex, if_neg h, ih h, hdigit, Nat.toDigits_of_base_le (by decide) hge,
        List.map_append, ascii_append, List.reverse_append]
      rfl

end Convert

theorem formatInt_of_neg {v : ℤ} (h : v < 0) :
    formatInt v = '-' :: Nat.toDigits 10 v.natAbs := by
  obtain ⟨n, rfl⟩ := Int.eq_negSucc_of_lt_zero h
  have htext : toString (Int.negSucc n) = "-" ++ toString (n + 1) := rfl
  rw [formatInt, htext, String.toList_append, Nat.toString_eq_repr, Nat.toList_repr]
  rfl

theorem convert_eq (v : ℤ) :
    convert v = (ascii (formatInt v) ++ [0], (ascii (formatInt v)).length) := by
  have hp : (Convert.loop v ++ if v < 0 then ascii ['-'] else []).reverse =
      ascii (formatInt v) := by
    rw [Convert.loop_eq]
    split
    · next h =>
      rw [formatInt_of_neg h, List.reverse_append, List.reverse_reverse]
      rfl
    · next h =>
      obtain ⟨n, rfl⟩ := Int.eq_ofNat_of_zero_le (Int.not_lt.mp h)
      rw [List.append_nil, List.reverse_reverse, formatInt_natCast]
      rfl
  rw [convert, ← hp, List.length_reverse]

theorem convertHex_eq (v : ℕ) :
    convertHex v = (0 :: ascii ((Nat.toDigits 16 v).map Char.toUpper),
      (ascii ((Nat.toDigits 16 v).map Char.toUpper)).length + 1) := by
  rw [convertHex, Convert.loopHex_eq]
  simp

/-- A buffer and the insertions that have changed its contents, in their order. -/
structure Filling (size : ℕ) where
  buffer : FixedBuffer size
  accepted : List Insertion

namespace FixedBuffer

variable {size : ℕ} {b : FixedBuffer size} {x : Insertion}

theorem insert_of_append (b : FixedBuffer size) (h : x.numeric = false) :
    b.insert x = b.append x.text := by
  cases x with
  | cString str => cases str <;> rfl
  | bool v => rfl
  | char v => rfl
  | string v => rfl
  | stringPiece v => rfl
  | buffer v => rfl
  | format text => rfl
  | append data => rfl
  | _ => cases h

theorem formatInteger_eq (b : FixedBuffer size) (v : ℤ) : b.formatInteger v =
    if kMaxNumericSize ≤ size then
      b.put (ascii (formatInt v) ++ [0]) (ascii (formatInt v)).length 42
    else .ok b := by
  rw [formatInteger, convert_eq]
  rfl

theorem insert_of_numeric (b : FixedBuffer size) (h : x.numeric = true) (hp : x.isPointer = false) :
    ∃ line, b.insert x =
      if kMaxNumericSize ≤ size then b.put (x.text ++ [0]) x.text.length line else .ok b := by
  cases x with
  | float v => exact ⟨257, rfl⟩
  | double v => exact ⟨257, rfl⟩
  | short v => exact ⟨42, b.formatInteger_eq _⟩
  | unsignedShort v => exact ⟨42, b.formatInteger_eq _⟩
  | int v => exact ⟨42, b.formatInteger_eq _⟩
  | unsignedInt v => exact ⟨42, b.formatInteger_eq _⟩
  | long v => exact ⟨42, b.formatInteger_eq _⟩
  | unsignedLong v => exact ⟨42, b.formatInteger_eq _⟩
  | longLong v => exact ⟨42, b.formatInteger_eq _⟩
  | unsignedLongLong v => exact ⟨42, b.formatInteger_eq _⟩
  | pointer p => cases hp
  | _ => cases h

/-- The text of a pointer has a terminator in its middle, and it is counted. -/
theorem insertPointer_eq (b : FixedBuffer size) (p : UInt64) : ∃ stored : List Byte,
    stored.length = (Insertion.pointer p).text.length + 1 ∧
      b.insert (.pointer p) =
        if kMaxNumericSize ≤ size then b.put stored stored.length 59 else .ok b := by
  refine ⟨ascii ['0', 'x'] ++ (convertHex p.toNat).1, ?_, ?_⟩
  · rw [convertHex_eq]
    simp [Insertion.text, ascii]
  · have hlen : (convertHex p.toNat).2 + 2 =
        (ascii ['0', 'x'] ++ (convertHex p.toNat).1).length := by
      rw [convertHex_eq]
      simp [ascii]
    rw [insert, insertPointer, hlen]
    rfl

theorem put_eq (b : FixedBuffer size) {stored : List Byte} (len line : ℕ)
    (h : b.content.length + stored.length ≤ size) :
    Yields (b.put stored len line) fun b' => b'.content = b.content ++ stored.take len := by
  rw [put, dif_pos (by rwa [List.length_append])]
  exact yields_ok.mpr rfl

theorem put_overruns (b : FixedBuffer size) {stored : List Byte} (len line : ℕ)
    (h : size < b.content.length + stored.length) :
    b.put stored len line = .error (.outOfBounds .log_stream_cc line) := by
  rw [put, dif_neg]
  rw [List.length_append]
  omega

theorem insert_rejected (b : FixedBuffer size) (h : ¬ x.Accepted size) : b.insert x = .ok b := by
  cases hn : x.numeric with
  | false =>
    have hle : ¬ x.text.length < size := by simpa [Insertion.Accepted, hn] using h
    rw [b.insert_of_append hn, b.append_eq_self hle]
  | true =>
    have hle : ¬ kMaxNumericSize ≤ size := by simpa [Insertion.Accepted, hn] using h
    cases hp : x.isPointer with
    | false =>
      obtain ⟨line, heq⟩ := b.insert_of_numeric hn hp
      rw [heq, if_neg hle]
    | true =>
      cases x with
      | pointer p =>
        obtain ⟨stored, -, heq⟩ := b.insertPointer_eq p
        rw [heq, if_neg hle]
      | _ => cases hp

theorem insert_fits (h : x.Accepted size) (hp : x.isPointer = false)
    (hfit : b.content.length + x.written ≤ size) :
    Yields (b.insert x) fun b' => b'.content = b.content ++ x.text := by
  cases hn : x.numeric with
  | false =>
    have hlt : x.text.length < size := by simpa [Insertion.Accepted, hn] using h
    have hroom : (b.content ++ x.text).length ≤ size := by
      simpa [Insertion.written, hn] using hfit
    rw [b.insert_of_append hn, b.append_eq hlt hroom]
    exact yields_ok.mpr rfl
  | true =>
    have hle : kMaxNumericSize ≤ size := by simpa [Insertion.Accepted, hn] using h
    have hroom : b.content.length + (x.text ++ [0]).length ≤ size := by
      simpa [Insertion.written, hn] using hfit
    obtain ⟨line, heq⟩ := b.insert_of_numeric hn hp
    rw [heq, if_pos hle]
    have hput := b.put_eq x.text.length line hroom
    rwa [List.take_left] at hput

theorem insert_overruns (h : x.Accepted size) (hover : size < b.content.length + x.written)
    (P : FixedBuffer size → Prop) : ¬ Yields (b.insert x) P := by
  cases hn : x.numeric with
  | false =>
    have hlt : x.text.length < size := by simpa [Insertion.Accepted, hn] using h
    have hroom : ¬ (b.content ++ x.text).length ≤ size := by
      simpa [Insertion.written, hn] using hover
    rw [b.insert_of_append hn, b.append_overruns hlt hroom]
    exact yields_error
  | true =>
    have hle : kMaxNumericSize ≤ size := by simpa [Insertion.Accepted, hn] using h
    rw [Insertion.written, if_pos hn] at hover
    cases hp : x.isPointer with
    | false =>
      obtain ⟨line, heq⟩ := b.insert_of_numeric hn hp
      rw [heq, if_pos hle, b.put_overruns]
      · exact yields_error
      · simpa using hover
    | true =>
      cases x with
      | pointer p =>
        obtain ⟨stored, hlen, heq⟩ := b.insertPointer_eq p
        rw [heq, if_pos hle, b.put_overruns]
        · exact yields_error
        · rwa [hlen]
      | _ => cases hp

theorem insert_pointer (h : x.Accepted size) (hp : x.isPointer = true)
    (hfit : b.content.length + x.written ≤ size) :
    Yields (b.insert x) fun b' => b'.content.length = b.content.length + x.text.length + 1 := by
  cases x with
  | pointer p =>
    obtain ⟨stored, hlen, heq⟩ := b.insertPointer_eq p
    have hroom : b.content.length + stored.length ≤ size := by rwa [hlen]
    have hle : kMaxNumericSize ≤ size := h
    rw [heq, if_pos hle]
    refine (b.put_eq stored.length 59 hroom).mono fun b' hb' => ?_
    rw [hb', List.take_length, List.length_append, hlen]
    rfl
  | _ => cases hp

end FixedBuffer

namespace Filling

variable {size : ℕ} {s : Filling size} {x : Insertion}

def new : Filling size := ⟨.new, []⟩

def step (s : Filling size) (x : Insertion) : Except Fault (Filling size) := do
  let b ← s.buffer.insert x
  return ⟨b, if b.content = s.buffer.content then s.accepted else s.accepted ++ [x]⟩

/-- The contents are the complete texts of the insertions that changed them. -/
def Whole (s : Filling size) : Prop :=
  s.buffer.length ≤ size ∧ s.buffer.content = s.accepted.flatMap Insertion.text

def AvailExact (s : Filling size) : Prop := s.buffer.avail = size - s.buffer.length

/-- The insertion is not accepted, or there is room for the bytes it writes and it is not the one
whose text gets a terminator in its middle. -/
def Room (s : Filling size) (x : Insertion) : Prop :=
  x.Accepted size → s.buffer.content.length + x.written ≤ size ∧ x.isPointer = false

theorem new_whole : (new : Filling size).Whole := ⟨Nat.zero_le size, rfl⟩

theorem step_whole (s : Filling size) (x : Insertion) (h : s.Whole) (hx : s.Room x) :
    Yields (s.step x) Whole := by
  by_cases ha : x.Accepted size
  · obtain ⟨hfit, hp⟩ := hx ha
    refine yields_bind (FixedBuffer.insert_fits ha hp hfit) fun b hb => yields_pure.mpr ⟨b.fits, ?_⟩
    dsimp only
    split
    · next hsame => rw [hsame, h.2]
    · rw [hb, h.2, List.flatMap_append, List.flatMap_singleton]
  · simp only [step, s.buffer.insert_rejected ha]
    refine yields_ok.mpr ⟨h.1, ?_⟩
    rw [if_pos rfl]
    exact h.2

theorem not_whole_of_no_room (s : Filling size) (x : Insertion) (h : s.Whole) (hx : ¬ s.Room x) :
    ¬ Yields (s.step x) Whole := by
  simp only [Room, not_forall] at hx
  obtain ⟨ha, hx⟩ := hx
  rintro ⟨t, ht, htw⟩
  obtain ⟨b, hb, heq⟩ := bind_eq_ok ht
  cases heq
  by_cases hfit : s.buffer.content.length + x.written ≤ size
  · have hp : x.isPointer = true := by
      by_contra hp
      exact hx ⟨hfit, by simpa using hp⟩
    have hlen := (FixedBuffer.insert_pointer ha hp hfit).of_eq hb
    have hne : b.content ≠ s.buffer.content := by
      intro hsame
      rw [hsame] at hlen
      omega
    have hcontent := htw.2
    dsimp only at hcontent
    rw [if_neg hne, List.flatMap_append, List.flatMap_singleton, ← h.2] at hcontent
    rw [hcontent, List.length_append] at hlen
    omega
  · exact FixedBuffer.insert_overruns ha (not_le.mp hfit) (fun _ => True) ⟨b, hb, trivial⟩

structure Untouched (s : Filling size) : Prop where
  content_eq : s.buffer.content = []
  accepted_eq : s.accepted = []

theorem Untouched.exact (h : s.Untouched) : s.Whole ∧ s.AvailExact := by
  have hlen : s.buffer.length = 0 := by rw [FixedBuffer.length, h.content_eq, List.length_nil]
  refine ⟨⟨s.buffer.fits, ?_⟩, ?_⟩
  · rw [h.content_eq, h.accepted_eq, List.flatMap_nil]
  · rw [AvailExact, hlen]
    rfl

def Idle (size : ℕ) (x : Insertion) : Prop := x.Accepted size → x.text = []

theorem written_of_idle (h : x.Accepted size) (ht : x.text = []) :
    x.written ≤ size ∧ x.isPointer = false := by
  constructor
  · cases hn : x.numeric with
    | false => simp [Insertion.written, hn, ht]
    | true =>
      have hle : kMaxNumericSize ≤ size := by simpa [Insertion.Accepted, hn] using h
      have hone : x.written = 1 := by simp [Insertion.written, hn, ht]
      rw [hone]
      exact le_trans (by decide) hle
  · cases x with
    | pointer p => simp [Insertion.text, ascii] at ht
    | _ => rfl

theorem step_untouched (s : Filling size) (x : Insertion) (h : s.Untouched) (hx : Idle size x) :
    Yields (s.step x) Untouched := by
  by_cases ha : x.Accepted size
  · have ht := hx ha
    obtain ⟨hle, hp⟩ := written_of_idle ha ht
    have hfit : s.buffer.content.length + x.written ≤ size := by
      rw [h.content_eq, List.length_nil, Nat.zero_add]
      exact hle
    refine yields_bind (FixedBuffer.insert_fits ha hp hfit) fun b hb => yields_pure.mpr ?_
    have hsame : b.content = s.buffer.content := by rw [hb, ht, List.append_nil]
    exact ⟨hsame.trans h.content_eq, (if_pos hsame).trans h.accepted_eq⟩
  · simp only [step, s.buffer.insert_rejected ha]
    exact yields_ok.mpr ⟨h.content_eq, (if_pos rfl).trans h.accepted_eq⟩

/-- Once a byte has been written, `Avail()` is too large. -/
theorem not_exact_of_not_idle (s : Filling size) (x : Insertion) (h : s.Untouched)
    (hx : ¬ Idle size x) : ¬ Yields (s.step x) fun t => t.Whole ∧ t.AvailExact := by
  simp only [Idle, not_forall] at hx
  obtain ⟨ha, ht⟩ := hx
  intro hyields
  have hroom : s.Room x := by
    by_contra hroom
    exact not_whole_of_no_room s x h.exact.1 hroom (hyields.mono fun _ hs => hs.1)
  obtain ⟨hfit, hp⟩ := hroom ha
  obtain ⟨t, hstep, -, hexact⟩ := hyields
  obtain ⟨b, hb, heq⟩ := bind_eq_ok hstep
  cases heq
  have hcontent := (FixedBuffer.insert_fits ha hp hfit).of_eq hb
  rw [h.content_eq, List.nil_append] at hcontent
  have hpos : 0 < b.length := by
    rw [FixedBuffer.length, hcontent]
    exact List.length_pos_of_ne_nil ht
  have hle : b.length ≤ size := b.fits
  have hsize : size = size - b.length := hexact
  omega

/-- Every insertion adds its complete text or nothing, and `Avail()` is the room that is left, all
along a sequence of insertions exactly when none of them writes anything. Without `Avail()`, it is
so exactly when there is room for every insertion that `Avail()` lets through. -/
theorem insertions_exact_iff (size : ℕ) (insertions : List Insertion) :
    ((∀ n, Yields (run step (new : Filling size) (insertions.take n))
        fun s => s.Whole ∧ s.AvailExact) ↔ ∀ x ∈ insertions, Idle size x) ∧
      ((∀ n, Yields (run step (new : Filling size) (insertions.take n)) Whole) ↔
        Along step Room (new : Filling size) insertions) := by
  have huntouched : (new : Filling size).Untouched := ⟨rfl, rfl⟩
  have hall {C : Filling size → Insertion → Prop} (h : ∀ s x, C s x) :
      Along step C (new : Filling size) insertions := along_of_forall h new insertions
  constructor
  · refine Iff.trans (run_take_iff (C := fun _ x => Idle size x) (E := fun _ _ => True)
      (fun s x h _ hx => step_untouched s x h hx) (fun s x h _ hx => not_exact_of_not_idle s x h hx)
      (fun _ h => h.exact) huntouched (hall fun _ _ => trivial)) ?_
    constructor
    · exact fun h => mem_of_along step_untouched huntouched h
    · exact fun h => along_of_mem h new
  · exact run_take_iff (E := fun _ _ => True) (fun s x h _ hx => step_whole s x h hx)
      (fun s x h _ hx => not_whole_of_no_room s x h hx) (fun _ h => h) new_whole
      (hall fun _ _ => trivial)

/-- Two texts of three bytes overrun an array of five, and after the first `Avail()` is five. -/
theorem second_text_overruns :
    (∃ s, run step (new : Filling 5) [.string (ascii ['a', 'b', 'c'])] = .ok s ∧
      s.buffer.length = 3 ∧ s.buffer.avail = 5 ∧
      s.step (.string (ascii ['d', 'e', 'f'])) = .error (.outOfBounds .log_stream_h 45)) ∧
    ¬ ∀ n, Yields (run step (new : Filling 5) (List.take n
      [.string (ascii ['a', 'b', 'c']), .string (ascii ['d', 'e', 'f'])]))
      fun s => s.Whole ∧ s.AvailExact := by
  refine ⟨⟨_, rfl, rfl, rfl, rfl⟩, fun h => ?_⟩
  obtain ⟨s, hs, -⟩ := h 2
  cases hs

end Filling

end Dwater
