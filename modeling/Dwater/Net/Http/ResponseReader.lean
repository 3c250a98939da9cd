import Dwater.Net.Http.HttpResponse

/-! # Reading responses

A reader on the other side of the connection. It takes the lines up to the first empty one, and
then as many bytes of body as `Content-Length` says, or all that follow if there is none. What it
reads of a response is written down here from the protocol and not from the source.
-/

set_option autoImplicit false
namespace Dwater

open Search

/-- What a response says. -/
structure ResponseFields where
  statusCode : ℕ
  statusMessage : List Byte
  headers : HeaderMap
  body : List Byte
  deriving DecidableEq, Repr

def HttpResponse.fields (r : HttpResponse) : ResponseFields :=
  ⟨r.statusCode.value, r.statusMessage, r.headers, r.body⟩

namespace ResponseReader

def contentLength : List Byte :=
  ascii ['C', 'o', 'n', 't', 'e', 'n', 't', '-', 'L', 'e', 'n', 'g', 't', 'h']

def connection : List Byte := ascii ['C', 'o', 'n', 'n', 'e', 'c', 't', 'i', 'o', 'n']

def protocol : List Byte := ascii ['H', 'T', 'T', 'P', '/', '1', '.', '1']

def readLines : ℕ → List Byte → Option (List (List Byte) × List Byte)
  | 0, _ => none
  | n + 1, bytes =>
    match cutPair cr lf bytes with
    | none => none
    | some ([], rest) => some ([], rest)
    | some (line, rest) => (readLines n rest).map fun r => (line :: r.1, r.2)

def readDecimal (bytes : List Byte) : Option ℕ :=
  let digits := bytes.map fun b => Char.ofNat b.toNat
  if digits ≠ [] ∧ digits.all Char.isDigit then some (Nat.ofDigitChars 10 digits 0) else none

/-- The protocol, the code and the message, with a space between them. -/
def readStatusLine (line : List Byte) : Option (ℕ × List Byte) := do
  let (version, line) ← cut space line
  let (code, message) ← cut space line
  if version = protocol then return (← readDecimal code, message) else none

def readHeaderLine (line : List Byte) : Option (List Byte × List Byte) := do
  let (name, value) ← cut colon line
  match value with
  | b :: value => if b = space then some (name, value) else none
  | [] => none

/-- The name belongs to the connection and not to the response. -/
def framing (name : List Byte) : Bool := name = contentLength || name = connection

def headerMap (headers : List (List Byte × List Byte)) : HeaderMap :=
  (headers.filter fun h => !framing h.1).foldl (fun m h => m.set h.1 h.2) []

def readBody (headers : List (List Byte × List Byte)) (bytes : List Byte) :
    Option (List Byte × List Byte) :=
  match headers.lookup contentLength with
  | none => some (bytes, [])
  | some text => do
    let n ← readDecimal text
    if n ≤ bytes.length then some (bytes.take n, bytes.drop n) else none

def readResponse (bytes : List Byte) : Option (ResponseFields × List Byte) := do
  let (lines, rest) ← readLines bytes.length bytes
  match lines with
  | [] => none
  | statusLine :: lines =>
    let (code, message) ← readStatusLine statusLine
    let headers ← lines.mapM readHeaderLine
    let (body, rest) ← readBody headers rest
    return (⟨code, message, headerMap headers, body⟩, rest)

def readResponses : ℕ → List Byte → Option (List ResponseFields)
  | _, [] => some []
  | 0, _ :: _ => none
  | n + 1, bytes@(_ :: _) => do
    let (r, rest) ← readResponse bytes
    let rs ← readResponses n rest
    return r :: rs

def readAll (bytes : List Byte) : Option (List ResponseFields) :=
  readResponses bytes.length bytes

def headerLine (h : List Byte × List Byte) : List Byte := h.1 ++ [colon, space] ++ h.2

theorem readLines_eq (lines : List (List Byte)) (rest : List Byte)
    (hlines : ∀ line ∈ lines, cr ∉ line ∧ line ≠ []) : ∀ {n : ℕ}, lines.length < n →
      readLines n (lines.flatMap (· ++ crlf) ++ crlf ++ rest) = some (lines, rest) := by
  induction lines with
  | nil =>
    intro n hn
    obtain ⟨n, rfl⟩ := Nat.exists_eq_add_one_of_ne_zero (Nat.ne_zero_of_lt hn)
    have hcut : cutPair cr lf (crlf ++ rest) = some ([], rest) :=
      cutPair_append_cons (p := []) List.not_mem_nil
    rw [List.flatMap_nil, List.nil_append, readLines, hcut]
  | cons line lines ih =>
    intro n hn
    obtain ⟨n, rfl⟩ := Nat.exists_eq_add_one_of_ne_zero (Nat.ne_zero_of_lt hn)
    obtain ⟨hcr, hne⟩ := hlines line List.mem_cons_self
    have hcut : cutPair cr lf ((line :: lines).flatMap (· ++ crlf) ++ crlf ++ rest) =
        some (line, lines.flatMap (· ++ crlf) ++ crlf ++ rest) := by
      have happ : (line :: lines).flatMap (· ++ crlf) ++ crlf ++ rest =
          line ++ cr :: lf :: (lines.flatMap (· ++ crlf) ++ crlf ++ rest) := by
        simp [crlf]
      rw [happ]
      exact cutPair_append_cons hcr
    have ih' := ih (fun l hl => hlines l (List.mem_cons_of_mem line hl))
      (Nat.lt_of_succ_lt_succ hn)
    rw [readLines, hcut]
    split
    · next heq => cases heq
    · next heq =>
      cases heq
      exact absurd rfl hne
    · next heq =>
      cases heq
      rw [ih']
      rfl

theorem readLines_length {lines : List (List Byte)} {bytes rest : List Byte}
    (hlines : ∀ line ∈ lines, cr ∉ line ∧ line ≠ [])
    (hbytes : bytes = lines.flatMap (· ++ crlf) ++ crlf ++ rest) :
    readLines bytes.length bytes = some (lines, rest) := by
  have hcrlf : crlf.length = 2 := rfl
  have hle : lines.length ≤ (lines.flatMap (· ++ crlf)).length := by
    clear hlines hbytes
    induction lines with
    | nil => exact Nat.zero_le _
    | cons line lines ih =>
      rw [List.flatMap_cons, List.length_append, List.length_append, List.length_cons]
      omega
  rw [hbytes]
  refine readLines_eq lines rest hlines ?_
  rw [List.length_append, List.length_append]
  omega

theorem ofNat_ascii {c : Char} (h : c.isDigit = true) :
    Char.ofNat (UInt8.ofNat c.toNat).toNat = c := by
  have hle : c.toNat ≤ 57 := by
    simp only [Char.isDigit, Bool.and_eq_true, decide_eq_true_eq] at h
    exact UInt32.le_iff_toNat_le.mp h.2
  rw [UInt8.toNat_ofNat_of_lt' (lt_of_le_of_lt hle (by decide)), Char.ofNat_toNat]

theorem readDecimal_formatInt (n : ℕ) : readDecimal (ascii (formatInt n)) = some n := by
  have hdigits : (ascii (formatInt n)).map (fun b => Char.ofNat b.toNat) = Nat.toDigits 10 n := by
    rw [formatInt_natCast, ascii, List.map_map]
    refine (List.map_congr_left fun c hc => ?_).trans (List.map_id _)
    exact ofNat_ascii (Nat.isDigit_of_mem_toDigits (by decide) (by decide) hc)
  have hall : (Nat.toDigits 10 n).all Char.isDigit = true := by
    rw [List.all_eq_true]
    exact fun c hc => Nat.isDigit_of_mem_toDigits (by decide) (by decide) hc
  unfold readDecimal
  rw [hdigits]
  dsimp only
  rw [if_pos ⟨Nat.toDigits_ne_nil, hall⟩, Nat.ofDigitChars_ten_toDigits]

theorem readHeaderLine_headerLine {h : List Byte × List Byte} (hcolon : colon ∉ h.1) :
    readHeaderLine (headerLine h) = some h := by
  have hcut : cut colon (headerLine h) = some (h.1, space :: h.2) := by
    rw [headerLine, List.append_assoc]
    exact cut_append_cons hcolon
  simp [readHeaderLine, hcut]

theorem mapM_readHeaderLine {headers : List (List Byte × List Byte)}
    (hcolon : ∀ h ∈ headers, colon ∉ h.1) :
    (headers.map headerLine).mapM readHeaderLine = some headers := by
  induction headers with
  | nil => rfl
  | cons h headers ih =>
    rw [List.map_cons, List.mapM_cons, readHeaderLine_headerLine (hcolon h List.mem_cons_self),
      ih fun h' hh' => hcolon h' (List.mem_cons_of_mem h hh')]
    rfl

end ResponseReader

end Dwater
