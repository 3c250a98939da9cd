import Dwater.Base.Format
import Dwater.Net.Buffer
import Dwater.Net.Http.Headers

/-! # HTTP responses

A response is set field by field and appended to a buffer as a status line, header lines, an
empty line and the body. Every string goes through a `StringPiece`, whose length is an `int`.
-/

set_option autoImplicit false
namespace Dwater

open Fallible

inductive HttpStatusCode
  | kunknown | k200Ok | k301MovedPermanpently | k400BadRequest | k404NotFound
  deriving DecidableEq, Repr

def HttpStatusCode.value : HttpStatusCode → ℕ
  | kunknown => 0
  | k200Ok => 200
  | k301MovedPermanpently => 301
  | k400BadRequest => 400
  | k404NotFound => 404

/-- `StringPiece(const string& str)`, and `StringPiece(const char* str)` for the bytes before the
terminating zero. -/
def StringPiece.ofString (str : List Byte) : StringPiece := ⟨str, toInt str.length⟩

theorem StringPiece.length_ofString (str : List Byte) :
    (StringPiece.ofString str).length = toInt str.length := by
  rw [StringPiece.ofString]

def crlf : List Byte := [cr, lf]

structure HttpResponse where
  headers : HeaderMap
  statusCode : HttpStatusCode
  statusMessage : List Byte
  closeConnection : Bool
  body : List Byte
  headers_sorted : headers.Sorted

namespace HttpResponse

def new (close : Bool) : HttpResponse where
  headers := []
  statusCode := .kunknown
  statusMessage := []
  closeConnection := close
  body := []
  headers_sorted := List.Pairwise.nil

def setStatusCode (r : HttpResponse) (code : HttpStatusCode) : HttpResponse :=
  { r with statusCode := code }

def setStatusMessage (r : HttpResponse) (message : List Byte) : HttpResponse :=
  { r with statusMessage := message }

def setCloseConnection (r : HttpResponse) (on : Bool) : HttpResponse :=
  { r with closeConnection := on }

def addHeader (r : HttpResponse) (key value : List Byte) : HttpResponse :=
  { r with headers := r.headers.set key value, headers_sorted := r.headers_sorted.set key value }

def contentType : List Byte :=
  ascii ['C', 'o', 'n', 't', 'e', 'n', 't', '-', 'T', 'y', 'p', 'e']

def setContentType (r : HttpResponse) (value : List Byte) : HttpResponse :=
  r.addHeader contentType value

def setBody (r : HttpResponse) (body : List Byte) : HttpResponse := { r with body := body }

def httpVersion : List Char := ['H', 'T', 'T', 'P', '/', '1', '.', '1', ' ']

def contentLengthName : List Char :=
  ['C', 'o', 'n', 't', 'e', 'n', 't', '-', 'L', 'e', 'n', 'g', 't', 'h', ':', ' ']

def connectionClose : List Char :=
  ['C', 'o', 'n', 'n', 'e', 'c', 't', 'i', 'o', 'n', ':', ' ', 'c', 'l', 'o', 's', 'e']

def connectionKeepAlive : List Char :=
  ['C', 'o', 'n', 'n', 'e', 'c', 't', 'i', 'o', 'n', ':', ' ', 'K', 'e', 'e', 'p', '-', 'A', 'l',
    'i', 'v', 'e']

/-- What the first `snprintf` leaves in the buffer of 32 bytes. -/
def statusText (r : HttpResponse) : List Byte :=
  ascii (snprintf 32 (httpVersion ++ formatInt r.statusCode.value ++ [' ']))

/-- What the second `snprintf` leaves there; `%zd` prints the size as a signed number. -/
def contentLengthText (r : HttpResponse) : List Byte :=
  ascii (snprintf 32 (contentLengthName ++ formatInt (Int.bmod r.body.length (2 ^ 64)) ++
    ['\r', '\n']))

def appendHeader (output : Buffer) (header : List Byte × List Byte) : Except Fault Buffer := do
  let output ← output.appendPiece (.ofString header.1)
  let output ← output.appendPiece (.ofString [colon, space])
  let output ← output.appendPiece (.ofString header.2)
  output.appendPiece (.ofString crlf)

def appendFraming (r : HttpResponse) (output : Buffer) : Except Fault Buffer := do
  if r.closeConnection then
    output.appendPiece (.ofString (ascii connectionClose ++ crlf))
  else
    let output ← output.appendPiece (.ofString r.contentLengthText)
    output.appendPiece (.ofString (ascii connectionKeepAlive ++ crlf))

def appendToBuffer (r : HttpResponse) (output : Buffer) : Except Fault Buffer := do
  let output ← output.appendPiece (.ofString r.statusText)
  let output ← output.appendPiece (.ofString r.statusMessage)
  let output ← output.appendPiece (.ofString crlf)
  let output ← r.appendFraming output
  let output ← run appendHeader output r.headers
  let output ← output.appendPiece (.ofString crlf)
  output.appendPiece (.ofString r.body)

def appendAll (responses : List HttpResponse) (output : Buffer) : Except Fault Buffer :=
  run (fun output r => r.appendToBuffer output) output responses

end HttpResponse

end Dwater
