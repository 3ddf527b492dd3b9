import DamnWebServer.Net.BufferQueue
import DamnWebServer.Net.Poller

/-!
# TCP connections

`Tcp_Connection` (`net/tcp_connection.h`, `net/tcp_connection.cpp`). The
handlers of one connection touch the connection, the poller of its loop and the
kernel's side of its socket; `ConnContext` holds the three. The result of every
system call is a parameter of the handler that makes it. User callbacks and
`close_callback_` are not run here: a handler is cut at the point where it calls
them, and the systems built on top decide what the callback does.

Every handler runs in the loop's thread, which is what `assert_in_loop_thread`
checks; `send` and `shutdown` may be called from any thread and say what is left
for the loop to do.
-/

namespace DamnWebServer

/-- `State_E`. -/
inductive StateE where
  | kDisconnected | kConnecting | kConnected | kDisconnecting
  deriving DecidableEq, Repr

/-- `Tcp_Connection`, without its name, its addresses and its callbacks. -/
structure TcpConnection where
  state : StateE
  channel : Channel
  inputBuffer : Buffer
  outputBuffer : Buffer
  deriving DecidableEq, Repr

/-- The kernel's side of the socket: the bytes `::write` accepted and the calls
    made on it. -/
structure Socket where
  written : List Byte
  writeCalls : Nat
  shutWrCalls : Nat
  deriving DecidableEq, Repr

/-- The result of `::write`. -/
inductive WriteResult where
  | wrote (n : Nat)
  | error (e : Errno)
  deriving DecidableEq, Repr

/-- What `::write` may return for a request of `len` bytes. -/
def WriteResult.Fits (len : Nat) : WriteResult → Prop
  | .wrote n => n ≤ len
  | .error _ => True

instance (len : Nat) (r : WriteResult) : Decidable (r.Fits len) :=
  match r with
  | .wrote n => inferInstanceAs (Decidable (n ≤ len))
  | .error _ => .isTrue trivial

/-- `errno` is neither `EPIPE` nor `ECONNRESET`. -/
def WriteResult.Open : WriteResult → Prop
  | .wrote _ => True
  | .error e => e ≠ .epipe ∧ e ≠ .econnreset

instance (r : WriteResult) : Decidable r.Open :=
  match r with
  | .wrote _ => .isTrue trivial
  | .error _ => inferInstanceAs (Decidable (_ ∧ _))

/-- A connection with the poller of its loop and its socket. -/
structure ConnContext where
  conn : TcpConnection
  poller : Poller
  sock : Socket

/-- A functor that `run_in_loop` leaves to the loop's thread. -/
inductive ConnFunctor where
  | sendInLoop (data : List Byte)
  | shutDownInLoop
  deriving DecidableEq, Repr

namespace TcpConnection

/-- The constructor: `k_connecting`, a fresh channel, two default buffers. -/
def new (addr fd : Nat) : TcpConnection where
  state := .kConnecting
  channel := { addr := addr, fd := fd }
  inputBuffer := Buffer.new Buffer.kInitialSize
  outputBuffer := Buffer.new Buffer.kInitialSize

def connected (c : TcpConnection) : Bool := c.state = .kConnected

end TcpConnection

namespace Socket

def new : Socket := ⟨[], 0, 0⟩

/-- `::write(fd, data, len)`. -/
def write (s : Socket) (data : List Byte) : WriteResult → Socket
  | .wrote n => { s with written := s.written ++ data.take n, writeCalls := s.writeCalls + 1 }
  | .error _ => { s with writeCalls := s.writeCalls + 1 }

end Socket

namespace ConnContext

def setState (x : ConnContext) (s : StateE) : ConnContext :=
  { x with conn := { x.conn with state := s } }

def setOutput (x : ConnContext) (b : Buffer) : ConnContext :=
  { x with conn := { x.conn with outputBuffer := b } }

/-- Runs a poller operation on the connection's channel. -/
def onChannel (x : ConnContext)
    (op : Poller → Channel → Except Fault (Poller × Channel)) : Except Fault ConnContext := do
  let r ← op x.poller x.conn.channel
  return { x with poller := r.1, conn := { x.conn with channel := r.2 } }

def isWriting (x : ConnContext) : Bool := x.conn.channel.isWriting

/-- `::shutdown(socket_fd_, SHUT_WR)` unless output is pending. -/
def shutDownInLoop (x : ConnContext) : ConnContext :=
  if !x.isWriting then
    { x with sock := { x.sock with shutWrCalls := x.sock.shutWrCalls + 1 } }
  else x

/-- The first half of `send_in_loop`: `nwrote` and `pipe_or_reset`. -/
def directWrite (x : ConnContext) (data : List Byte) (r : WriteResult) :
    ConnContext × Nat × Bool :=
  if !x.isWriting ∧ x.conn.outputBuffer.readableBytes = 0 then
    let x := { x with sock := x.sock.write data r }
    match r with
    | .wrote n => (x, n, false)
    | .error e => (x, 0, decide (e = .epipe ∨ e = .econnreset))
  else (x, 0, false)

def sendInLoop (x : ConnContext) (data : List Byte) (r : WriteResult) :
    Except Fault ConnContext :=
  if x.conn.state = .kDisconnected then .ok x
  else
    let w := x.directWrite data r
    if !w.2.2 ∧ w.2.1 < data.length then do
      let out ← w.1.conn.outputBuffer.append (data.drop w.2.1)
      let x := w.1.setOutput out
      if !x.isWriting then x.onChannel Poller.enableWriting else return x
    else .ok w.1

/-- What follows a `::write` of `n > 0` bytes in `handle_write`. -/
def drained (x : ConnContext) (n : Nat) : Except Fault ConnContext :=
  let x := x.setOutput (x.conn.outputBuffer.retrieve n)
  if x.conn.outputBuffer.readableBytes = 0 then do
    let x ← x.onChannel Poller.disableWriting
    return if x.conn.state = .kDisconnecting then x.shutDownInLoop else x
  else .ok x

def handleWrite (x : ConnContext) (r : WriteResult) : Except Fault ConnContext :=
  if x.isWriting then
    let x := { x with sock := x.sock.write x.conn.outputBuffer.readable r }
    match r with
    | .wrote n => if 0 < n then x.drained n else .ok x
    | .error _ => .ok x
  else .ok x

/-- `handle_close` up to `connection_callback_`. -/
def handleClose (x : ConnContext) : Except Fault ConnContext := do
  require (x.conn.state = .kConnected ∨ x.conn.state = .kDisconnecting)
    "state_ == k_connected || state_ == k_disconnecting"
  (x.setState .kDisconnected).onChannel Poller.disableAll

/-- How `handle_read` goes on after `read_fd`. -/
inductive ReadNext where
  /-- `message_callback_` is called. -/
  | message
  /-- `handle_close` is called. -/
  | close
  /-- `handle_error` is called: it only prints. -/
  | error
  deriving DecidableEq, Repr

/-- `handle_read` up to the call it makes. -/
def handleRead (x : ConnContext) (r : ReadvResult) : Except Fault (ConnContext × ReadNext) := do
  let res ← x.conn.inputBuffer.readFd r
  let x := { x with conn := { x.conn with inputBuffer := res.1 } }
  return (x, if res.2.1 > 0 then .message else if res.2.1 = 0 then .close else .error)

/-- `connect_established` up to `connection_callback_`. -/
def connectEstablished (x : ConnContext) : Except Fault ConnContext := do
  require (x.conn.state = .kConnecting) "state_ == k_connecting"
  (x.setState .kConnected).onChannel Poller.enableReading

/-- `connect_destroyed` up to `channel_->remove()`; the flag tells whether
    `connection_callback_` is called. -/
def connectDestroyed (x : ConnContext) : Except Fault (ConnContext × Bool) :=
  let was := x.conn.state
  let x := x.setState .kDisconnected
  if was = .kConnected then do
    let x ← x.onChannel Poller.disableAll
    return (x, true)
  else .ok (x, false)

/-- `channel_->remove()`. -/
def removeChannel (x : ConnContext) : Except Fault ConnContext := x.onChannel Poller.remove

/-- `shutdown()`: the unconditional exchange, and the functor handed to
    `run_in_loop`. -/
def shutdown (x : ConnContext) : ConnContext × Option ConnFunctor :=
  (x.setState .kDisconnecting, if x.conn.state = .kConnected then some .shutDownInLoop else none)

/-- `send(message)`, and `send(buf)` from the loop's thread with the readable bytes
    of `buf`: the work for the loop. -/
def send (x : ConnContext) (data : List Byte) : Option ConnFunctor :=
  if x.conn.state = .kConnected then some (.sendInLoop data) else none

/-- The loop's thread runs a functor; `r` is the result of the `::write` it may
    make. -/
def runFunctor (x : ConnContext) (r : WriteResult) : ConnFunctor → Except Fault ConnContext
  | .sendInLoop data => x.sendInLoop data r
  | .shutDownInLoop => .ok x.shutDownInLoop

/-- `send(message)` from the loop's thread. -/
def sendHere (x : ConnContext) (data : List Byte) (r : WriteResult) : Except Fault ConnContext :=
  match x.send data with
  | some f => x.runFunctor r f
  | none => .ok x

/-- `send(buf)` from the loop's thread: `buf` is emptied when it was sent. -/
def sendBufferHere (x : ConnContext) (buf : Buffer) (r : WriteResult) :
    Except Fault (ConnContext × Buffer) :=
  match x.send buf.readable with
  | some f => do return (← x.runFunctor r f, buf.retrieveAll)
  | none => .ok (x, buf)

/-- `shutdown()` from the loop's thread. -/
def shutdownHere (x : ConnContext) : ConnContext :=
  match x.shutdown with
  | (x, some _) => x.shutDownInLoop
  | (x, none) => x

@[simp] theorem setState_state (x : ConnContext) (s : StateE) :
    (x.setState s).conn.state = s := rfl

@[simp] theorem setState_channel (x : ConnContext) (s : StateE) :
    (x.setState s).conn.channel = x.conn.channel := rfl

@[simp] theorem setState_poller (x : ConnContext) (s : StateE) :
    (x.setState s).poller = x.poller := rfl

/-- The context with another mask, as `Channel::update` leaves it. -/
def withEvents (x : ConnContext) (p : Poller) (events : PollMask) : ConnContext :=
  { x with
    poller := p
    conn := { x.conn with channel := { x.conn.channel with
      events := events, index := Poller.nextIndex x.conn.channel.index events } } }

/-- An operation on the connection's channel that only sets the mask. -/
theorem onChannel_setEvents {x : ConnContext} (h : x.poller.Tracks x.conn.channel)
    (op : Poller → Channel → Except Fault (Poller × Channel)) (events : PollMask)
    (hop : op x.poller x.conn.channel = x.poller.setEvents x.conn.channel events) :
    ∃ p, x.onChannel op = .ok (x.withEvents p events) ∧
      p.Tracks (x.withEvents p events).conn.channel ∧
      Poller.SameExcept x.conn.channel.fd x.poller p ∧ p.failures = x.poller.failures := by
  obtain ⟨p, hok, htracks, hsame, hfail⟩ := Poller.setEvents_spec h events
  refine ⟨p, ?_, htracks, hsame, hfail⟩
  rw [onChannel, hop, hok]
  rfl

theorem connectEstablished_spec {x : ConnContext} (h : x.poller.Tracks x.conn.channel)
    (hstate : x.conn.state = .kConnecting) :
    ∃ p, x.connectEstablished =
        .ok ((x.setState .kConnected).withEvents p (x.conn.channel.events.or kReadEvent)) ∧
      p.Tracks ((x.setState .kConnected).withEvents p
        (x.conn.channel.events.or kReadEvent)).conn.channel ∧
      Poller.SameExcept x.conn.channel.fd x.poller p := by
  obtain ⟨p, hok, htracks, hsame, _⟩ := onChannel_setEvents (x := x.setState .kConnected) h
    Poller.enableReading (x.conn.channel.events.or kReadEvent) rfl
  refine ⟨p, ?_, htracks, hsame⟩
  rw [connectEstablished, hstate]
  exact hok

theorem handleClose_spec {x : ConnContext} (h : x.poller.Tracks x.conn.channel)
    (hstate : x.conn.state = .kConnected ∨ x.conn.state = .kDisconnecting) :
    ∃ p, x.handleClose = .ok ((x.setState .kDisconnected).withEvents p kNoneEvent) ∧
      p.Tracks ((x.setState .kDisconnected).withEvents p kNoneEvent).conn.channel ∧
      Poller.SameExcept x.conn.channel.fd x.poller p := by
  obtain ⟨p, hok, htracks, hsame, _⟩ := onChannel_setEvents (x := x.setState .kDisconnected) h
    Poller.disableAll kNoneEvent rfl
  refine ⟨p, ?_, htracks, hsame⟩
  rw [handleClose, decide_eq_true hstate]
  exact hok

/-- The context after `channel_->remove()`. -/
def forgotten (x : ConnContext) (p : Poller) : ConnContext :=
  { x with
    poller := p
    conn := { x.conn with channel := { x.conn.channel with index := .kNew } } }

theorem removeChannel_spec {x : ConnContext} (h : x.poller.Tracks x.conn.channel)
    (hnone : x.conn.channel.events = kNoneEvent) (hknown : x.conn.channel.index ≠ .kNew) :
    ∃ p, x.removeChannel = .ok (x.forgotten p) ∧ p.Tracks (x.forgotten p).conn.channel ∧
      Poller.SameExcept x.conn.channel.fd x.poller p := by
  obtain ⟨p, hok, htracks, hsame, _⟩ := Poller.remove_spec h hnone hknown
  refine ⟨p, ?_, htracks, hsame⟩
  rw [removeChannel, onChannel, hok]
  rfl

end ConnContext

end DamnWebServer
