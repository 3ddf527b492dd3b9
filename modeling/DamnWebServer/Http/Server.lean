import DamnWebServer.Http.Context

/-!
# The HTTP server

`Http_Server::on_message` and `on_request` (`http/http_server.cpp`). Each call of
`on_message` makes a context of its own and drops it on return. What it does to
the outside is a list of events: the request handed to `http_callback_`, the
bytes passed to `Tcp_Connection::send`, the calls of `shutdown`, and a fault that
ends everything.
-/

namespace DamnWebServer

abbrev HttpCallback := HttpRequest → HttpResponse → HttpResponse

def defaultHttpCallback : HttpCallback := fun _ resp =>
  { resp with statusCode := .notFound, statusMessage := ascii "Not Found", closeConnection := true }

inductive HttpEvent where
  | request (req : HttpRequest)
  | send (data : List Byte)
  | shutdown
  | fault (f : Fault)
  deriving DecidableEq

namespace HttpServer

def badRequest : List Byte := ascii "HTTP/1.1 400 Bad Request\r\n\r\n"

def onRequest (callback : HttpCallback) (req : HttpRequest) : List HttpEvent :=
  let connection := req.getHeader (ascii "Connection")
  let close := connection = ascii "close" ∨
    req.version = .http10 ∧ connection ≠ ascii "Keep-Alive"
  let response := callback req (.new close)
  match response.appendToBuffer (Buffer.new Buffer.kInitialSize) with
  | .error f => [.request req, .fault f]
  | .ok buf =>
    [.request req, .send buf.readable] ++ if response.closeConnection then [.shutdown] else []

/-- `on_message`, with the rounds granted to the parser. -/
def onMessage (callback : HttpCallback) (buf : Buffer) (receiveTime : Int) :
    Buffer × List HttpEvent :=
  match HttpContext.parseRequest receiveTime (buf.readableBytes + 1) {} buf with
  | .error f => (buf, [.fault f])
  | .ok (context, buf, ok) =>
    (buf, (if ok then [] else [.send badRequest, .shutdown]) ++
      if context.gotAll then onRequest callback context.request else [])

end HttpServer

end DamnWebServer
