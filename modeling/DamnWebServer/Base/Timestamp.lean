import DamnWebServer.Base.Decimal

/-!
# Timestamps

`Timestamp` (`base/timestamp.h`, `base/timestamp.cpp`): microseconds since the epoch,
and the two texts it can be turned into. `to_string` takes the microseconds of the
second with `&` where `to_formatted_string` takes a remainder.
-/

namespace DamnWebServer

/-- `mircoseconds_since_epoch_`. -/
abbrev Timestamp := Int

/-- `struct tm`. -/
structure Tm where
  year : Nat
  mon : Nat
  mday : Nat
  hour : Nat
  min : Nat
  sec : Nat
  deriving DecidableEq, Repr

/-- `k_microseconds_per_second`. -/
def kMicrosecondsPerSecond : Int := 1000 * 1000

namespace Timestamp

def valid (t : Timestamp) : Bool := 0 < t

def secondsSinceEpoch (t : Timestamp) : Int := t.tdiv kMicrosecondsPerSecond

/-- `to_string`, into a buffer of 32 bytes. -/
def toString (t : Timestamp) : List Byte :=
  let seconds := t.secondsSinceEpoch
  let microseconds := (BitVec.ofInt 64 t &&& BitVec.ofInt 64 kMicrosecondsPerSecond).toInt
  (ascii (ToString.toString seconds) ++ ascii "." ++ paddedInteger 6 microseconds).take 31

end Timestamp

/-- The `%4d%02d%02d %02d:%02d:%02d` of `to_formatted_string`. -/
def Tm.compact (tm : Tm) : List Byte :=
  paddedDecimal 32 4 (tm.year + 1900) ++ paddedDecimal 48 2 (tm.mon + 1) ++
    paddedDecimal 48 2 tm.mday ++ ascii " " ++ paddedDecimal 48 2 tm.hour ++ ascii ":" ++
    paddedDecimal 48 2 tm.min ++ ascii ":" ++ paddedDecimal 48 2 tm.sec

/-- `to_formatted_string`, into a buffer of 64 bytes. -/
def Timestamp.toFormattedString (gmtime : Int → Tm) (t : Timestamp) (showMicroseconds : Bool) :
    List Byte :=
  let tm := gmtime t.secondsSinceEpoch
  if showMicroseconds then
    (tm.compact ++ ascii "." ++ paddedInteger 6 (t.tmod kMicrosecondsPerSecond)).take 63
  else tm.compact.take 63

end DamnWebServer
