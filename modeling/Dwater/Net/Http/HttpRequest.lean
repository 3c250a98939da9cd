import Dwater.Lib.Search
import Dwater.Base.Timestamp

/-! # HTTP requests

The fields of a request and the functions that set them from the bytes of a request
line or a header line. The receive time stands apart from the fields that are read
from the bytes.
-/

set_option autoImplicit false
namespace Dwater

open Fallible

def space : Byte := 32

def question : Byte := 63

def colon : Byte := 58

def cr : Byte := 13

def lf : Byte := 10

def isspace (b : Byte) : Bool := b = space || (9 ≤ b && b ≤ 13)

inductive Method
  | kinvalid | kget | kpost | khead | kput | kdelete
  deriving DecidableEq, Repr

inductive Version
  | kunknow | khttp10 | khttp11
  deriving DecidableEq, Repr

/-- `headers_` as its pairs in ascending order of the names. -/
abbrev HeaderMap := List (List Byte × List Byte)

def HeaderMap.set (field value : List Byte) : HeaderMap → HeaderMap
  | [] => [(field, value)]
  | (name, old) :: rest =>
    if field = name then (field, value) :: rest
    else if field < name then (field, value) :: (name, old) :: rest
    else (name, old) :: HeaderMap.set field value rest

/-- The fields of a request that are read from its bytes. -/
structure RequestFields where
  method : Method
  version : Version
  path : List Byte
  query : List Byte
  headers : HeaderMap
  deriving DecidableEq, Repr

structure HttpRequest extends RequestFields where
  receiveTime : Timestamp
  deriving DecidableEq, Repr

namespace Method

def string : Method → List Byte
  | kget => ascii ['G', 'E', 'T']
  | kpost => ascii ['P', 'O', 'S', 'T']
  | khead => ascii ['H', 'E', 'A', 'D']
  | kput => ascii ['P', 'U', 'T']
  | kdelete => ascii ['D', 'E', 'L', 'E', 'T', 'E']
  | kinvalid => ascii ['U', 'N', 'K', 'N', 'O', 'W', 'N']

end Method

namespace RequestFields

def new : RequestFields :=
  { method := .kinvalid, version := .kunknow, path := [], query := [], headers := [] }

/-- `SetMethod`; for `HEAD` the source assigns to the local string and not to `method_`. -/
def setMethod (r : RequestFields) (m : List Byte) : Except Fault (Bool × RequestFields) := do
  check (r.method = .kinvalid) (.assertion .http_request_h 51)
  let r :=
    if m = Method.kget.string then { r with method := .kget }
    else if m = Method.kpost.string then { r with method := .kpost }
    else if m = Method.khead.string then r
    else if m = Method.kput.string then { r with method := .kput }
    else if m = Method.kdelete.string then { r with method := .kdelete }
    else { r with method := .kinvalid }
  return (r.method ≠ .kinvalid, r)

def setPath (r : RequestFields) (path : List Byte) : RequestFields := { r with path := path }

def setQuery (r : RequestFields) (query : List Byte) : RequestFields := { r with query := query }

def setVersion (r : RequestFields) (version : Version) : RequestFields :=
  { r with version := version }

def trim (value : List Byte) : List Byte :=
  ((value.dropWhile isspace).reverse.dropWhile isspace).reverse

/-- `AddHeader` with the parts of the line before and after the colon. -/
def addHeader (r : RequestFields) (field value : List Byte) : RequestFields :=
  { r with headers := r.headers.set field (trim value) }

def getHeader (r : RequestFields) (field : List Byte) : List Byte :=
  (r.headers.lookup field).getD []

end RequestFields

namespace HttpRequest

def new : HttpRequest := { RequestFields.new with receiveTime := .invalid }

def withFields (r : HttpRequest) (fields : RequestFields) : HttpRequest :=
  { fields with receiveTime := r.receiveTime }

def setReceiveTime (r : HttpRequest) (t : Timestamp) : HttpRequest := { r with receiveTime := t }

end HttpRequest

end Dwater
