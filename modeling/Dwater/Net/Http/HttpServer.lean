import Dwater.Net.Http.HttpContext

/-! # The message callback of the HTTP server

Each chunk that arrives on a connection is appended to its input buffer, and
`OnMessage` is called once for it. What the server does on the connection is recorded
in order.
-/

set_option autoImplicit false
namespace Dwater

open Fallible

/-- What `OnMessage` does: the answer to a malformed request, or the user's callback for a
request with the `close` flag of the response it is given. -/
inductive HttpAction
  | badRequest
  | httpCallback (request : HttpRequest) (close : Bool)
  deriving DecidableEq, Repr

structure HttpConnection where
  context : HttpContext
  inputBuffer : Buffer
  actions : List HttpAction

namespace HttpConnection

def new (inputBuffer : Buffer) : HttpConnection := ⟨.new, inputBuffer, []⟩

/-- Whether the connection is to be closed after the response. -/
def closeAfter (request : HttpRequest) : Bool :=
  let connection := request.getHeader (ascii ['C', 'o', 'n', 'n', 'e', 'c', 't', 'i', 'o', 'n'])
  connection = ascii ['c', 'l', 'o', 's', 'e'] ||
    (request.version = .khttp10 &&
      connection ≠ ascii ['K', 'e', 'e', 'p', '-', 'A', 'l', 'i', 'v', 'e'])

def onRequest (c : HttpConnection) : HttpConnection :=
  let request := c.context.request
  { c with actions := c.actions ++ [.httpCallback request (closeAfter request)] }

def onMessage (c : HttpConnection) (receiveTime : Timestamp) : Except Fault HttpConnection := do
  let (ok, context, inputBuffer) ← c.context.parseRequest c.inputBuffer receiveTime
  let c : HttpConnection :=
    ⟨context, inputBuffer, if ok then c.actions else c.actions ++ [.badRequest]⟩
  if c.context.gotAll then
    return { c.onRequest with context := c.context.reset }
  else
    return c

/-- A chunk arrives: it is appended to the input buffer and `OnMessage` is called. -/
def receive (c : HttpConnection) (x : List Byte × Timestamp) : Except Fault HttpConnection := do
  let inputBuffer ← c.inputBuffer.append x.1
  { c with inputBuffer := inputBuffer }.onMessage x.2

def requests (c : HttpConnection) : List HttpRequest :=
  c.actions.filterMap fun
    | .httpCallback request _ => some request
    | .badRequest => none

end HttpConnection

end Dwater
