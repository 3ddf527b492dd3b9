import DamnWebServer.Base.Machine

/-!
# The byte buffer

`Buffer` of `net/buffer.h` and `net/buffer.cpp`: one vector of bytes cut by two
indices into a prependable, a readable and a writable part.

```
+-------------------+------------------+------------------+
| prependable bytes |  readable bytes  |  writable bytes  |
+-------------------+------------------+------------------+
0      <=      readerIndex   <=   writerIndex    <=     size
```

Sizes are `size_t` and wrap modulo `2^64`; the parameter of `make_space` is an
`int`, so a length from `2^31` on reaches it changed. A pointer into the vector
is modelled by its offset from `begin()`. Copies check their ranges: the result
is `Fault.badCopy` where the program would leave the vector.
-/

namespace DamnWebServer

/-- `Buffer`: the vector and its two indices. -/
structure Buffer where
  buffer : List Byte
  readerIndex : Nat
  writerIndex : Nat
  deriving DecidableEq, Repr

/-- What `::readv` did: it failed, or it delivered bytes (none at end of file). -/
inductive ReadvResult where
  | error (e : Errno)
  | delivered (data : List Byte)
  deriving DecidableEq, Repr

namespace Buffer

/-- `k_cheap_prepend`. -/
def kCheapPrepend : Nat := 8

/-- `k_initial_size`. -/
def kInitialSize : Nat := 1024

/-- `sizeof(extrabuf)` in `read_fd`. -/
def extrabufSize : Nat := 65536

/-- `Buffer(initial_size)`: the vector is value-initialised. -/
def new (initialSize : Nat) : Buffer where
  buffer := List.replicate (sizeT (kCheapPrepend + initialSize)) 0
  readerIndex := kCheapPrepend
  writerIndex := kCheapPrepend

def readableBytes (b : Buffer) : Nat := sizeT (b.writerIndex - b.readerIndex)

def writableBytes (b : Buffer) : Nat := sizeT (b.buffer.length - b.writerIndex)

def prependableBytes (b : Buffer) : Nat := b.readerIndex

/-- `peek()`, as an offset from `begin()`. -/
def peek (b : Buffer) : Nat := b.readerIndex

/-- `begin_write()`, as an offset from `begin()`. -/
def beginWrite (b : Buffer) : Nat := b.writerIndex

/-- The bytes between two offsets. -/
def range (b : Buffer) (first last : Nat) : List Byte :=
  (b.buffer.drop first).take (last - first)

/-- The readable bytes. -/
def readable (b : Buffer) : List Byte := b.range b.readerIndex b.writerIndex

def retrieveAll (b : Buffer) : Buffer :=
  { b with readerIndex := kCheapPrepend, writerIndex := kCheapPrepend }

def retrieve (b : Buffer) (len : Nat) : Buffer :=
  if len < b.readableBytes then { b with readerIndex := sizeT (b.readerIndex + len) }
  else b.retrieveAll

/-- `retrieve_until(end)`, with the pointer given by its offset. -/
def retrieveUntil (b : Buffer) (last : Nat) : Buffer := b.retrieve (sizeT (last - b.peek))

/-- `std::copy` out of the vector: the source range has to lie inside it. -/
def copyFrom (b : Buffer) (first len : Nat) : Except Fault (List Byte) :=
  if first + len ≤ b.buffer.length then .ok (b.range first (first + len)) else .error .badCopy

/-- `std::copy` into the vector: the target range has to lie inside it. -/
def copyTo (b : Buffer) (dest : Nat) (data : List Byte) : Except Fault Buffer :=
  if dest + data.length ≤ b.buffer.length then
    .ok { b with buffer := b.buffer.take dest ++ data ++ b.buffer.drop (dest + data.length) }
  else .error .badCopy

def retrieveAsString (b : Buffer) (len : Nat) : Except Fault (Buffer × List Byte) := do
  let result ← b.copyFrom b.peek len
  return (b.retrieve len, result)

def retrieveAllAsString (b : Buffer) : Except Fault (Buffer × List Byte) :=
  b.retrieveAsString b.readableBytes

/-- `buffer_.resize(n)`. -/
def resize (b : Buffer) (n : Nat) : Except Fault Buffer :=
  if n ≤ maxSize then
    .ok { b with buffer := b.buffer.take n ++ List.replicate (n - b.buffer.length) 0 }
  else .error .lengthError

/-- The `else` branch of `make_space`: the readable bytes move to the front.
    `std::copy` needs its target to begin outside its source. -/
def compact (b : Buffer) : Except Fault Buffer := do
  let readable := b.readableBytes
  let data ← b.copyFrom b.readerIndex readable
  if b.readerIndex ≤ kCheapPrepend ∧ kCheapPrepend < b.readerIndex + readable then
    throw .badCopy
  let b ← b.copyTo kCheapPrepend data
  return { b with readerIndex := kCheapPrepend, writerIndex := sizeT (kCheapPrepend + readable) }

/-- `make_space(int len)`: grow, or move the readable bytes to the front. In
    `len + k_cheap_prepend` and `writer_index_ + len` the `int` is converted to
    `size_t` first. -/
def makeSpace (b : Buffer) (len : Int) : Except Fault Buffer :=
  if sizeT (b.writableBytes + b.prependableBytes) < sizeT (len + kCheapPrepend) then
    b.resize (sizeT (b.writerIndex + len))
  else b.compact

def ensureWritableBytes (b : Buffer) (len : Nat) : Except Fault Buffer :=
  if b.writableBytes < len then b.makeSpace (toInt len) else .ok b

/-- `append(data, len)`. -/
def append (b : Buffer) (data : List Byte) : Except Fault Buffer := do
  let b ← b.ensureWritableBytes data.length
  let b ← b.copyTo b.beginWrite data
  return { b with writerIndex := sizeT (b.writerIndex + data.length) }

/-- `std::search` for `k_CRLF` from an offset on. -/
def searchCRLF : List Byte → Option Nat
  | 13 :: 10 :: _ => some 0
  | _ :: rest => (searchCRLF rest).map (· + 1)
  | [] => none

/-- `find_CRLF()`, as an offset from `begin()`. -/
def findCRLF (b : Buffer) : Option Nat := (searchCRLF b.readable).map (b.peek + ·)

/-- The total length of the iovecs `read_fd` passes to `::readv`. -/
def iovecLength (b : Buffer) : Nat :=
  if b.writableBytes < extrabufSize then b.writableBytes + extrabufSize else b.writableBytes

/-- `read_fd`: the buffer afterwards, the returned `ssize_t` and `*saveErrno`.
    The kernel fills the writable part first and `extrabuf` with the rest. -/
def readFd (b : Buffer) : ReadvResult → Except Fault (Buffer × Int × Option Errno)
  | .error e => .ok (b, -1, some e)
  | .delivered data => do
    let writable := b.writableBytes
    let b ← b.copyTo b.writerIndex (data.take writable)
    if data.length ≤ writable then
      return ({ b with writerIndex := sizeT (b.writerIndex + data.length) }, data.length, none)
    else
      let b := { b with writerIndex := b.buffer.length }
      let b ← b.append (data.drop writable)
      return (b, data.length, none)

end Buffer

end DamnWebServer
