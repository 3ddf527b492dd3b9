import DamnWebServer.Base.Timestamp
import DamnWebServer.Log.LogStream

/-!
# Log statements

`Logger` (`base/log/logger.h`, `base/log/logger.cpp`): the constructor streams the
head of the record, the statement its own arguments, the destructor the tail, and
then hands the stream's buffer to `g_output`. The clock, `localtime` and
`strerror_r` are read once for each statement and are fields of it here.
-/

namespace DamnWebServer

inductive LogLevel where
  | trace | debug | info | warn | error | fatal
  deriving DecidableEq, Repr

/-- `get_level_name`, the six bytes that are streamed: two of the names are one
    shorter and give their terminator. -/
def LogLevel.name : LogLevel → List Byte
  | .trace => ascii "TRACE "
  | .debug => ascii "DEBUG "
  | .info => ascii "INFO " ++ [0]
  | .warn => ascii "WARN " ++ [0]
  | .error => ascii "ERROR "
  | .fatal => ascii "FATAL "

/-- What `format_time` leaves in `t_time`, which has room for 64 bytes. -/
def Tm.text (tm : Tm) : List Byte :=
  (paddedDecimal 32 4 (tm.year + 1900) ++ ascii "/" ++ paddedDecimal 48 2 (tm.mon + 1) ++
    ascii "/" ++ paddedDecimal 48 2 tm.mday ++ ascii " " ++ paddedDecimal 48 2 tm.hour ++
    ascii ":" ++ paddedDecimal 48 2 tm.min ++ ascii ":" ++ paddedDecimal 48 2 tm.sec).take 63

/-- `Source_File`: what stands behind the last slash. -/
def sourceFile (file : List Byte) : List Byte :=
  (file.reverse.takeWhile (· ≠ 47)).reverse

/-- A statement: the arguments of `Logger`, what the constructor reads from the
    system, and the arguments streamed by the user. -/
structure LogStatement where
  level : LogLevel
  /-- `saved_errno`, which the three constructors of `Logger` set to 0. -/
  savedErrno : Int := 0
  /-- `get_errno_msg(saved_errno)`. -/
  errnoMsg : List Byte := []
  file : List Byte
  line : Int
  func : Option (List Byte) := none
  tm : Tm
  microseconds : Nat
  args : List LogArg

namespace LogStatement

/-- `format_time`: of `t_time` the first seventeen bytes. -/
def formatTime (st : LogStatement) : List LogArg :=
  [.template st.tm.text 17,
    .template ((paddedDecimal 48 6 st.microseconds ++ ascii " ").take 31) 7]

/-- `Impl::Impl`. -/
def head (st : LogStatement) : List LogArg :=
  st.formatTime ++ [.template st.level.name 6] ++
  if st.savedErrno ≠ 0 then
    [.cstring (some st.errnoMsg), .cstring (some (ascii " (errno = ")), .integer st.savedErrno,
      .cstring (some (ascii ") "))]
  else []

/-- `Logger(file, line, level, func)` adds the name of the function. -/
def function (st : LogStatement) : List LogArg :=
  match st.func with
  | some func => [.cstring (some func), .char 32]
  | none => []

/-- `Impl::finish`. -/
def finish (st : LogStatement) : List LogArg :=
  [.cstring (some (ascii " - ")),
    .template (sourceFile st.file) (sourceFile st.file).length, .char 58, .integer st.line, .char 10]

/-- Everything that is streamed into the record. -/
def pieces (st : LogStatement) : List LogArg :=
  st.head ++ st.function ++ st.args ++ st.finish

/-- The stream when `~Logger` reads it. Nobody clears the array of a new stream. -/
def stream (st : LogStatement) (memory : List Byte) (h : memory.length = smallBufferSize) :
    Except Fault LogStream :=
  st.pieces.foldlM LogStream.insert (FixedBuffer.new memory h)

/-- `~Logger` passes this to `g_output`; at level `FATAL` it flushes and aborts after
    that. -/
def output (st : LogStatement) (memory : List Byte) (h : memory.length = smallBufferSize) :
    Except Fault (List Byte × Bool) := do
  let s ← st.stream memory h
  return (s.slice, decide (st.level = .fatal))

end LogStatement

end DamnWebServer
