import DamnWebServer.Base.Bytes
import DamnWebServer.Log.FixedBuffer

/-!
# The log stream

`Log_Stream` (`base/log/log_stream.h`): the overloads of `operator<<` over a
`Fixed_Buffer<SMALL_BUFFER_SIZE>`. Texts go through `append`, which takes them whole
or drops them; numbers are written through `current()` behind the contents and
made contents by `add`.
-/

namespace DamnWebServer

/-- `MAX_NUMRIC_SIZE`. -/
def maxNumricSize : Nat := 48

/-- The table `digits`; `zero` points to the `0` in its middle. -/
def digits : List Byte := ascii "9876543210123456789"

/-- `zero[remainder]`. -/
def zeroAt (remainder : Int) : Except Fault Byte :=
  if remainder < -9 then .error .badCopy
  else
    match digits[(9 + remainder).toNat]? with
    | some d => .ok d
    | none => .error .badCopy

/-- The `do`/`while` of `format_integer`: the digits as they are stored, the last one
    first. Each round divides by ten, so `fuel` above the absolute value is enough. -/
def integerDigits : Nat → Int → Except Fault (List Byte)
  | 0, _ => .error .outOfFuel
  | fuel + 1, num => do
    let d ← zeroAt (num.tmod 10)
    if num.tdiv 10 ≠ 0 then return d :: (← integerDigits fuel (num.tdiv 10)) else return [d]

/-- What `snprintf` with `%.12g` makes of a `double`. -/
structure DoubleText where
  text : List Byte
  length_le : text.length ≤ 20

abbrev LogStream := FixedBuffer smallBufferSize

/-- The arguments of `operator<<`. The integer types share `format_integer`; a
    `void*` and an `unsigned char*` are read as a `char*`. -/
inductive LogArg where
  | bool (v : Bool)
  | integer (v : Int)
  | double (v : DoubleText)
  | char (v : Byte)
  /-- `nullptr`, or a string without its terminator. -/
  | cstring (str : Option (List Byte))
  | string (v : List Byte)
  | buffer (v : LogStream)
  /-- `General_Template(data, len)`, with the object that `data` points to. -/
  | template (data : List Byte) (len : Int)

namespace LogStream

/-- `format_integer`. The terminator stays behind the contents. -/
def formatInteger (s : LogStream) (num : Int) : Except Fault LogStream :=
  if maxNumricSize ≤ s.avail then do
    let stored ← integerDigits (num.natAbs + 1) num
    let text := if num < 0 then stored ++ ascii "-" else stored
    let s ← s.store (text ++ [0])
    -- `std::reverse(start, cur)`
    let s ← s.store text.reverse
    s.add text.length
  else .ok s

/-- `operator<<(double)`: the `return` stands inside the `if`. -/
def formatDouble (s : LogStream) (v : DoubleText) : Except Fault LogStream :=
  if maxNumricSize ≤ s.avail then do
    let s ← s.store (v.text.take (maxNumricSize - 1) ++ [0])
    s.add v.text.length
  else .error .noReturn

/-- `append(g.data_, g.len_)`, where the `int` becomes a `size_t`. -/
def appendTemplate (s : LogStream) (data : List Byte) (len : Int) : Except Fault LogStream :=
  if sizeT len < s.avail then
    if sizeT len ≤ data.length then .ok (s.append (data.take (sizeT len))) else .error .badCopy
  else .ok s

/-- `stream << arg`. -/
def insert (s : LogStream) : LogArg → Except Fault LogStream
  | .bool v => .ok (s.append (if v then ascii "1" else ascii "0"))
  | .integer v => s.formatInteger v
  | .double v => s.formatDouble v
  | .char v => .ok (s.append [v])
  | .cstring (some str) => .ok (s.append str)
  | .cstring none => .ok (s.append (ascii "(null)"))
  | .string v => .ok (s.append v)
  | .buffer v => .ok (s.append v.slice)
  | .template data len => s.appendTemplate data len

end LogStream

end DamnWebServer
