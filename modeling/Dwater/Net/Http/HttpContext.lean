import Dwater.Net.Buffer
import Dwater.Net.Http.HttpRequest

/-! # The parser of HTTP requests

`ParseRequest` takes lines from the front of a buffer until a request is complete, a
line is malformed, or the bytes do not suffice. It keeps its state in the context, so
that the next call goes on where the last one stopped.
-/

set_option autoImplicit false
namespace Dwater

open Fallible Search

inductive HttpRequestParseState
  | kexpectRequestLine
  | kexpectHeaders
  | kexpectBody
  | kGotAll
  deriving DecidableEq, Repr

structure HttpContext where
  state : HttpRequestParseState
  request : HttpRequest
  deriving DecidableEq, Repr

def Buffer.findCRLF (b : Buffer) : Option ℕ :=
  (cutPair cr lf b.content).map fun r => r.1.length

namespace RequestFields

def setTarget (r : RequestFields) (target : List Byte) : RequestFields :=
  match cut question target with
  | some (path, query) => (r.setPath path).setQuery (question :: query)
  | none => r.setPath target

def versionOf (word : List Byte) : Option Version :=
  if word.length = 8 ∧ word.take 7 = ascii ['H', 'T', 'T', 'P', '/', '1', '.'] then
    if word.drop 7 = ascii ['1'] then some .khttp11
    else if word.drop 7 = ascii ['0'] then some .khttp10
    else none
  else none

def processRequestLine (r : RequestFields) (line : List Byte) :
    Except Fault (Bool × RequestFields) :=
  match cut space line with
  | some (m, line) => do
    let (accepted, r) ← r.setMethod m
    if accepted then
      match cut space line with
      | some (target, word) =>
        let r := r.setTarget target
        match versionOf word with
        | some version => return (true, r.setVersion version)
        | none => return (false, r)
      | none => return (false, r)
    else
      return (false, r)
  | none => return (false, r)

end RequestFields

structure Parsing where
  context : HttpContext
  buf : Buffer
  ok : Bool
  hasMore : Bool

namespace Parsing

def requestLine (p : Parsing) (receiveTime : Timestamp) : Except Fault Parsing :=
  match p.buf.findCRLF with
  | some crlf => do
    let (ok, fields) ← p.context.request.processRequestLine (p.buf.content.take crlf)
    let request := p.context.request.withFields fields
    if ok then
      let buf ← p.buf.retrieveUntil (p.buf.peek + (crlf + 2))
      return ⟨⟨.kexpectHeaders, request.setReceiveTime receiveTime⟩, buf, true, p.hasMore⟩
    else
      return ⟨⟨p.context.state, request⟩, p.buf, false, false⟩
  | none => return { p with hasMore := false }

/-- A header line is added to the request, a line without a colon completes it. -/
def headerLine (p : Parsing) (line : List Byte) : Parsing :=
  let request := p.context.request
  match cut colon line with
  | some (field, value) =>
    { p with context := ⟨p.context.state, request.withFields (request.addHeader field value)⟩ }
  | none => { p with context := ⟨.kGotAll, request⟩, hasMore := false }

def headers (p : Parsing) : Except Fault Parsing :=
  match p.buf.findCRLF with
  | some crlf => do
    let p := p.headerLine (p.buf.content.take crlf)
    let buf ← p.buf.retrieveUntil (p.buf.peek + (crlf + 2))
    return { p with buf := buf }
  | none => return { p with hasMore := false }

/-- One round of the loop; with a body expected, or all got, it does nothing. -/
def round (receiveTime : Timestamp) (p : Parsing) : Except Fault Parsing :=
  match p.context.state with
  | .kexpectRequestLine => p.requestLine receiveTime
  | .kexpectHeaders => p.headers
  | .kexpectBody | .kGotAll => return p

/-- The loop, for at most the given number of rounds; `none` if it has not ended by then. -/
def loop (receiveTime : Timestamp) : ℕ → Parsing → Except Fault (Option Parsing)
  | 0, p => return if p.hasMore then none else some p
  | n + 1, p =>
    if p.hasMore then p.round receiveTime >>= loop receiveTime n
    else return some p

end Parsing

namespace HttpContext

def new : HttpContext := ⟨.kexpectRequestLine, .new⟩

def gotAll (c : HttpContext) : Bool := c.state = .kGotAll

def reset (_ : HttpContext) : HttpContext := ⟨.kexpectRequestLine, .new⟩

/-- `ParseRequest`. A round that goes on takes at least two bytes, so a loop that has not ended
after more rounds than there are bytes never ends. -/
def parseRequest (c : HttpContext) (buf : Buffer) (receiveTime : Timestamp) :
    Except Fault (Bool × HttpContext × Buffer) := do
  match ← Parsing.loop receiveTime (buf.readableBytes + 1) ⟨c, buf, true, true⟩ with
  | some p => return (p.ok, p.context, p.buf)
  | none => .error (.endlessLoop .http_context_cc 49)

end HttpContext

end Dwater
