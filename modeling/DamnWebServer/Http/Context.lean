import DamnWebServer.Http.Message
import DamnWebServer.Net.BufferQueue

/-!
# The request parser

`Http_Context` (`http/http_context.h`, `http/http_context.cpp`). The `while` of
`parse_request` gets a bound on its rounds; in the states `EXPECT_BODY` and
`GOT_ALL` no branch of it is taken and it never ends.
-/

namespace DamnWebServer

/-- `Http_Request_Parse_State`. -/
inductive HttpRequestParseState where
  | expectRequestLine | expectHeaders | expectBody | gotAll
  deriving DecidableEq, Repr

structure HttpContext where
  state : HttpRequestParseState := .expectRequestLine
  request : HttpRequest := {}
  deriving DecidableEq

/-- The last part of `process_request_line`, from the byte after the target. -/
def HttpRequest.setVersion (r : HttpRequest) (text : List Byte) : HttpRequest × Bool :=
  if text.length = 8 ∧ text.take 7 = ascii "HTTP/1." then
    if text.drop 7 = ascii "1" then ({ r with version := .http11 }, true)
    else if text.drop 7 = ascii "0" then ({ r with version := .http10 }, true)
    else (r, false)
  else (r, false)

/-- `set_path` and `set_query`; the query keeps its question mark. -/
def HttpRequest.setTarget (r : HttpRequest) (target : List Byte) : HttpRequest :=
  match findByte 63 target with
  | some (path, query) => { r with path := path, query := 63 :: query }
  | none => { r with path := target }

/-- `process_request_line`: on failure the request keeps what was set so far. -/
def HttpRequest.processRequestLine (r : HttpRequest) (line : List Byte) :
    Except Fault (HttpRequest × Bool) :=
  match findByte 32 line with
  | none => .ok (r, false)
  | some (method, rest) => do
    let m ← r.setMethod method
    if m.2 then
      match findByte 32 rest with
      | none => return (m.1, false)
      | some (target, version) => return (m.1.setTarget target).setVersion version
    else return (m.1, false)

namespace HttpContext

def gotAll (c : HttpContext) : Bool := c.state = .gotAll

/-- `parse_request(buf, receive_time)`, with at most `fuel` rounds of its loop. -/
def parseRequest (receiveTime : Int) :
    Nat → HttpContext → Buffer → Except Fault (HttpContext × Buffer × Bool)
  | 0, _, _ => .error .outOfFuel
  | fuel + 1, c, buf =>
    match c.state with
    | .expectRequestLine =>
      match buf.findCRLF with
      | none => .ok (c, buf, true)
      | some crlf => do
        let r ← c.request.processRequestLine (buf.range buf.peek crlf)
        if r.2 then
          parseRequest receiveTime fuel
            ⟨.expectHeaders, { r.1 with receiveTime := receiveTime }⟩ (buf.retrieveUntil (crlf + 2))
        else return ({ c with request := r.1 }, buf, false)
    | .expectHeaders =>
      match buf.findCRLF with
      | none => .ok (c, buf, true)
      | some crlf =>
        match findByte 58 (buf.range buf.peek crlf) with
        | some (field, rest) =>
          parseRequest receiveTime fuel { c with request := c.request.addHeader field rest }
            (buf.retrieveUntil (crlf + 2))
        -- a line without a colon ends the head, whatever it holds
        | none => .ok ({ c with state := .gotAll }, buf.retrieveUntil (crlf + 2), true)
    | .expectBody | .gotAll => parseRequest receiveTime fuel c buf

end HttpContext

end DamnWebServer
