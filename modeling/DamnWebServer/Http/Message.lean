import DamnWebServer.Base.Bytes
import DamnWebServer.Lib.OrderedMap
import DamnWebServer.Net.Buffer

/-!
# HTTP requests and responses

`Http_Request` (`http/http_request.h`), `Http_Response` (`http/http_response.h`,
`http/http_response.cpp`) and `Version` (`http/http_common_define.h`). A range
of `char`s is the list of its bytes.
-/

namespace DamnWebServer

inductive Version where
  | unknown | http10 | http11
  deriving DecidableEq, Repr

def Version.toBytes : Version → List Byte
  | .http10 => ascii "1.0"
  | .http11 => ascii "1.1"
  | .unknown => ascii "1.1"

inductive Method where
  | invalid | get | post | head | put | delete
  deriving DecidableEq, Repr

abbrev HeaderMap := OrderedMap (List Byte) (List Byte)

structure HttpRequest where
  method : Method := .invalid
  version : Version := .unknown
  path : List Byte := []
  query : List Byte := []
  receiveTime : Int := 0
  headers : HeaderMap := .empty
  deriving DecidableEq

namespace HttpRequest

/-- The comparison chain of `set_method`. -/
def methodOf (m : List Byte) : Method :=
  if m = ascii "GET" then .get
  else if m = ascii "POST" then .post
  else if m = ascii "HEAD" then .head
  else if m = ascii "PUT" then .put
  else if m = ascii "DELETE" then .delete
  else .invalid

def setMethod (r : HttpRequest) (m : List Byte) : Except Fault (HttpRequest × Bool) := do
  require (r.method = .invalid) "method_ == INVALID"
  return ({ r with method := methodOf m }, decide (methodOf m ≠ .invalid))

/-- `add_header(start, colon, end)` on the two sides of the colon: the value is
    trimmed at both ends, a later header of the same name wins. -/
def addHeader (r : HttpRequest) (field rest : List Byte) : HttpRequest :=
  let value := ((rest.dropWhile isspace).reverse.dropWhile isspace).reverse
  { r with headers := r.headers.set field value }

/-- A missing header reads as the empty string. -/
def getHeader (r : HttpRequest) (field : List Byte) : List Byte := (r.headers.find field).getD []

end HttpRequest

/-- `Http_Status_Code`. -/
inductive HttpStatusCode where
  | unknown | ok | movePermanently | badRequest | notFound
  deriving DecidableEq, Repr

def HttpStatusCode.toNat : HttpStatusCode → Nat
  | .unknown => 0
  | .ok => 200
  | .movePermanently => 301
  | .badRequest => 400
  | .notFound => 404

structure HttpResponse where
  headers : HeaderMap := .empty
  statusCode : HttpStatusCode := .unknown
  statusMessage : List Byte := []
  closeConnection : Bool
  version : Version := .unknown
  body : List Byte := []
  deriving DecidableEq

namespace HttpResponse

/-- `Http_Response(close)`. -/
def new (close : Bool) : HttpResponse := { closeConnection := close }

/-- The text that `snprintf` leaves in `char buf[32]`. -/
def snprintf32 (text : List Byte) : List Byte := text.take 31

/-- What `append_to_buffer` appends, call by call. -/
def pieces (r : HttpResponse) : List (List Byte) :=
  [snprintf32 (ascii "HTTP/" ++ r.version.toBytes ++ ascii " " ++
      ascii (toString r.statusCode.toNat) ++ ascii " "),
    r.statusMessage, ascii "\r\n"] ++
  (if r.closeConnection then [ascii "Connection: close\r\n"]
  else
    [snprintf32 (ascii "Content-Length: " ++ ascii (toString r.body.length) ++ ascii "\r\n"),
      ascii "Connection: Keep-Alive\r\n"]) ++
  r.headers.entries.flatMap (fun h => [h.1, ascii ": ", h.2, ascii "\r\n"]) ++
  [ascii "\r\n", r.body]

def appendToBuffer (r : HttpResponse) (output : Buffer) : Except Fault Buffer :=
  r.pieces.foldlM Buffer.append output

end HttpResponse

end DamnWebServer
