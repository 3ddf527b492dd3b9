import DamnWebServer.Net.ConnectionHandlers
import DamnWebServer.Lib.Transition

/-!
# The TCP server over its loops

`Tcp_Server` (`net/tcp_server.cpp`) after `start()`, with the acceptor, the thread
pool and the loops its connections live on. Loop 0 is `loop_`; the loops of the
pool follow. A loop's thread is a stack of tasks, innermost first: what its
current handler or functor still has to do. One step runs one task, up to the
next call it makes; the steps of the loops interleave freely.

Only the queues of functors are shared. `run_in_loop` runs a functor at once in
the loop's own thread, that is, it pushes the task; from another thread it queues
it. User code is a task of its own: while it is on top of the stack of a loop it
may call `send` and `shutdown` on connections of that loop it has been given.

The listening channel, the wakeup channel and the timer channel are registered
once and for all and are left out of the pollers. So are the wakeups: they decide
when a loop leaves `poll`, and here it may do so at any time. Descriptors are never
closed.
-/

namespace DamnWebServer

/-- The work of a loop's thread. A connection is known by the number of its
    accept. -/
inductive ServerTask where
  /-- `Channel::handle_event` of a connection's channel. -/
  | handleEvent (c : Nat) (revents : PollMask)
  /-- A callback of that channel. -/
  | callback (c : Nat) (k : ChannelCallback)
  /-- `Acceptor::handle_read`. -/
  | acceptorHandleRead
  /-- A callback, a timer or a functor of the user. -/
  | userCode
  | connectEstablished (c : Nat)
  | handleClose (c : Nat)
  /-- `close_callback_`, at the end of `handle_close`. -/
  | closeCallback (c : Nat)
  | removeConnectionInLoop (c : Nat)
  | connectDestroyed (c : Nat)
  /-- `channel_->remove()`, at the end of `connect_destroyed`. -/
  | channelRemove (c : Nat)
  deriving DecidableEq, Repr

/-- Where a loop is: in `poll`, behind it with the rest of `active_channels_`, or in
    `do_pending_functors` with the rest of `functors`. -/
inductive LoopPhase where
  | polling
  | handling (active : List ServerTask)
  | functors (batch : List ServerTask)
  deriving DecidableEq, Repr

def LoopPhase.tasks : LoopPhase → List ServerTask
  | .polling => []
  | .handling active => active
  | .functors batch => batch

/-- The phase without its first task. -/
def LoopPhase.tail : LoopPhase → LoopPhase
  | .polling => .polling
  | .handling active => .handling active.tail
  | .functors batch => .functors batch.tail

structure ServerLoop where
  poller : Poller
  pending : List ServerTask
  phase : LoopPhase
  stack : List ServerTask

/-- Everything the loop has still to run, in the order it will. -/
def ServerLoop.tasks (s : ServerLoop) : List ServerTask := s.stack ++ s.phase.tasks ++ s.pending

/-- A connection with its socket, the index of `loop_`, and `name_`. -/
structure ServerConn where
  conn : TcpConnection
  sock : Socket
  loop : Nat
  name : String

/-- What a run leaves behind of the calls on each connection. -/
inductive ServerEvent where
  | connectEstablished (c : Nat)
  /-- `connection_callback_` was called, with this value of `connected()`. -/
  | connectionCallback (c : Nat) (connected : Bool)
  /-- `handle_read`, `handle_write` or `handle_error`. -/
  | handler (c : Nat) (k : ChannelCallback)
  | handleClose (c : Nat)
  /-- `connections_.erase` returned `n`. -/
  | removeConnectionInLoop (c : Nat) (n : Nat)
  | connectDestroyed (c : Nat)
  | channelRemove (c : Nat)
  deriving DecidableEq, Repr

structure ServerState where
  name : String
  /-- `loops_.size()` of the thread pool. -/
  numThreads : Nat
  /-- `next_` of the thread pool. -/
  next : Nat
  nextConnId : Nat
  /-- `connections_`, which maps names to connections. -/
  connections : String → Option Nat
  /-- The connections made so far, by number, `accepted` of them. -/
  conns : Nat → ServerConn
  accepted : Nat
  loops : Nat → ServerLoop
  log : List ServerEvent
  /-- What ended the run. -/
  fault : Option Fault

/-- The results of the system calls that a step may make. -/
structure Kernel where
  readv : ReadvResult
  write : WriteResult
  accept : Option Nat
  deriving DecidableEq, Repr

/-- An event of `epoll_wait`. -/
inductive Ready where
  | registered (fd : Nat) (revents : PollMask)
  | listening
  /-- The wakeup channel or the timer channel. -/
  | other
  deriving DecidableEq, Repr

/-- What user code does to a connection. -/
inductive UserCall where
  | send (message : List Byte) (r : WriteResult)
  | sendBuffer (buf : Buffer) (r : WriteResult)
  | shutdown
  /-- `message_callback_` leaves this in the input buffer. -/
  | useInput (buf : Buffer)
  deriving DecidableEq, Repr

inductive ServerStep where
  | poll (l : Nat) (ready : List Ready)
  /-- The next active channel, or the next functor. -/
  | next (l : Nat)
  /-- `do_pending_functors` swaps. -/
  | swap (l : Nat)
  /-- The round of `loop()` ends. -/
  | again (l : Nat)
  /-- The task on top of the stack. -/
  | run (l : Nat) (k : Kernel)
  | call (l c : Nat) (u : UserCall)
  | userReturn (l : Nat)
  /-- Somebody queues a functor of the user. -/
  | userFunctor (l : Nat)
  deriving DecidableEq, Repr

/-- `conn_name`. -/
def connName (name : String) (id : Nat) : String := name ++ ("#" ++ Nat.repr id)

def UserCall.apply (x : ConnContext) : UserCall → Except Fault ConnContext
  | .send message r => x.sendHere message r
  | .sendBuffer buf r => do
    let res ← x.sendBufferHere buf r
    return res.1
  | .shutdown => .ok x.shutdownHere
  | .useInput buf => .ok { x with conn := { x.conn with inputBuffer := buf } }

def Ready.fd : Ready → Option Nat
  | .registered fd _ => some fd
  | .listening | .other => none

/-- `POLLHUP` without `POLLIN`. -/
def Ready.hupAlone : Ready → Bool
  | .registered _ revents => revents.pollhup && !revents.pollin
  | .listening | .other => false

/-- The channel of an event: the kernel gives back the `data.ptr` of the
    registration. -/
def Poller.activeChannel (p : Poller) : Ready → Option ServerTask
  | .registered fd revents => (p.interest fd).map fun e => .handleEvent e.2 revents
  | .listening => some .acceptorHandleRead
  | .other => some .userCode

def Poller.fillActiveChannels (p : Poller) (ready : List Ready) : List ServerTask :=
  ready.filterMap p.activeChannel

namespace ServerState

-- ════════════════════════════════════════════════════════════════════════
-- Access
-- ════════════════════════════════════════════════════════════════════════

def pollers (w : ServerState) (l : Nat) : Poller := (w.loops l).poller

def tasks (w : ServerState) (l : Nat) : List ServerTask := (w.loops l).tasks

/-- What the handlers of a connection see. -/
def context (w : ServerState) (c : Nat) : ConnContext :=
  ⟨(w.conns c).conn, w.pollers (w.conns c).loop, (w.conns c).sock⟩

def setLoop (w : ServerState) (l : Nat) (s : ServerLoop) : ServerState :=
  { w with loops := Function.update w.loops l s }

def setConn (w : ServerState) (c : Nat) (x : ServerConn) : ServerState :=
  { w with conns := Function.update w.conns c x }

def store (w : ServerState) (c : Nat) (x : ConnContext) : ServerState :=
  (w.setConn c { w.conns c with conn := x.conn, sock := x.sock }).setLoop (w.conns c).loop
    { w.loops (w.conns c).loop with poller := x.poller }

def record (w : ServerState) (events : List ServerEvent) : ServerState :=
  { w with log := w.log ++ events }

def setStack (w : ServerState) (l : Nat) (stack : List ServerTask) : ServerState :=
  w.setLoop l { w.loops l with stack := stack }

def setPhase (w : ServerState) (l : Nat) (phase : LoopPhase) : ServerState :=
  w.setLoop l { w.loops l with phase := phase }

def push (w : ServerState) (l : Nat) (ts : List ServerTask) : ServerState :=
  w.setStack l (ts ++ (w.loops l).stack)

/-- `queue_in_loop`. -/
def queueInLoop (w : ServerState) (l : Nat) (t : ServerTask) : ServerState :=
  w.setLoop l { w.loops l with pending := (w.loops l).pending ++ [t] }

/-- `run_in_loop` of the loop `target`, called in the thread of `l`. -/
def runInLoop (w : ServerState) (l target : Nat) (t : ServerTask) : ServerState :=
  if l = target then w.push l [t] else w.queueInLoop target t

def assertInLoopThread (l owner : Nat) : Except Fault Unit :=
  require (l = owner) "is_in_loop_thread()"

-- ════════════════════════════════════════════════════════════════════════
-- The server's own functions
-- ════════════════════════════════════════════════════════════════════════

/-- `get_next_loop`: the loop and `next_` afterwards. -/
def getNextLoop (w : ServerState) : Nat × Nat :=
  if w.numThreads = 0 then (0, w.next)
  else (w.next + 1, if w.numThreads ≤ w.next + 1 then 0 else w.next + 1)

def newConnection (w : ServerState) (l sockfd : Nat) : Except Fault ServerState := do
  assertInLoopThread l 0
  if 2 ^ 31 - 1 ≤ w.nextConnId then throw .overflow
  let name := connName w.name w.nextConnId
  let ioLoop := w.getNextLoop
  let conn : ServerConn := ⟨TcpConnection.new w.accepted sockfd, Socket.new, ioLoop.1, name⟩
  let w' : ServerState := { w.setConn w.accepted conn with
    nextConnId := w.nextConnId + 1
    next := ioLoop.2
    accepted := w.accepted + 1
    connections := Function.update w.connections name (some w.accepted) }
  return w'.runInLoop l ioLoop.1 (.connectEstablished w.accepted)

def removeConnection (w : ServerState) (l c : Nat) : ServerState :=
  w.runInLoop l 0 (.removeConnectionInLoop c)

def removeConnectionInLoop (w : ServerState) (l c : Nat) : Except Fault ServerState := do
  assertInLoopThread l 0
  let name := (w.conns c).name
  let n := if (w.connections name).isSome then 1 else 0
  let w' : ServerState := { w with connections := Function.update w.connections name none }
  require (n = 1) "n == 1"
  return (w'.record [.removeConnectionInLoop c n]).queueInLoop (w.conns c).loop
    (.connectDestroyed c)

/-- Runs one task in the thread of loop `l`, whose stack it has left. -/
def runTask (w : ServerState) (l : Nat) (k : Kernel) : ServerTask → Except Fault ServerState
  | .handleEvent c revents => .ok (w.push l ((Channel.handleEvent revents).map (.callback c)))
  | .callback c .close => .ok (w.push l [.handleClose c])
  | .callback c .error => .ok (w.record [.handler c .error])
  | .callback c .read => do
    assertInLoopThread l (w.conns c).loop
    let r ← (w.context c).handleRead k.readv
    let w' := (w.store c r.1).record [.handler c .read]
    match r.2 with
    | .message => return w'.push l [.userCode]
    | .close => return w'.push l [.handleClose c]
    | .error => return w'
  | .callback c .write => do
    assertInLoopThread l (w.conns c).loop
    let x ← (w.context c).handleWrite k.write
    return (w.store c x).record [.handler c .write]
  | .acceptorHandleRead =>
    match k.accept with
    | some fd => w.newConnection l fd
    -- a failed accept touches the spare descriptor only
    | none => .ok w
  | .userCode => .ok w
  | .connectEstablished c => do
    assertInLoopThread l (w.conns c).loop
    let x ← (w.context c).connectEstablished
    return ((w.store c x).record
      [.connectEstablished c, .connectionCallback c x.conn.connected]).push l [.userCode]
  | .handleClose c => do
    assertInLoopThread l (w.conns c).loop
    let x ← (w.context c).handleClose
    return ((w.store c x).record
      [.handleClose c, .connectionCallback c x.conn.connected]).push l [.userCode, .closeCallback c]
  | .closeCallback c => .ok (w.removeConnection l c)
  | .removeConnectionInLoop c => w.removeConnectionInLoop l c
  | .connectDestroyed c => do
    assertInLoopThread l (w.conns c).loop
    let r ← (w.context c).connectDestroyed
    let called := if r.2 then [ServerEvent.connectionCallback c r.1.conn.connected] else []
    let w' := (w.store c r.1).record (.connectDestroyed c :: called)
    return w'.push l (if r.2 then [.userCode, .channelRemove c] else [.channelRemove c])
  | .channelRemove c => do
    assertInLoopThread l (w.conns c).loop
    let x ← (w.context c).removeChannel
    return (w.store c x).record [.channelRemove c]

-- ════════════════════════════════════════════════════════════════════════
-- The steps
-- ════════════════════════════════════════════════════════════════════════

/-- A failure ends the run in the state it was raised in. -/
def settle (w : ServerState) : Except Fault ServerState → ServerState
  | .ok w' => w'
  | .error f => { w with fault := some f }

def perform (w : ServerState) : ServerStep → ServerState
  | .poll l ready => w.setPhase l (.handling ((w.pollers l).fillActiveChannels ready))
  | .next l =>
    w.setLoop l { w.loops l with
      phase := (w.loops l).phase.tail
      stack := (w.loops l).phase.tasks.take 1 }
  | .swap l =>
    w.setLoop l { w.loops l with phase := .functors (w.loops l).pending, pending := [] }
  | .again l => w.setPhase l .polling
  | .run l k =>
    match (w.loops l).stack with
    | [] => w
    | t :: rest => w.settle ((w.setStack l rest).runTask l k t)
  | .call _ c u => w.settle ((u.apply (w.context c)).map (w.store c))
  | .userReturn l => w.setStack l (w.loops l).stack.tail
  | .userFunctor l => w.queueInLoop l .userCode

/-- What the thread of a loop may do next. User code knows the connections whose
    callback it has been called with. -/
def Enabled (w : ServerState) : ServerStep → Prop
  | .poll l ready => w.fault = none ∧ l ≤ w.numThreads ∧ (w.loops l).stack = [] ∧
      (w.loops l).phase = .polling ∧ (∀ fd ∈ ready.filterMap Ready.fd,
        ((w.pollers l).interest fd).isSome = true) ∧ (.listening ∈ ready → l = 0)
  | .next l => w.fault = none ∧ l ≤ w.numThreads ∧ (w.loops l).stack = [] ∧
      (w.loops l).phase.tasks ≠ []
  | .swap l => w.fault = none ∧ l ≤ w.numThreads ∧ (w.loops l).stack = [] ∧
      (w.loops l).phase = .handling []
  | .again l => w.fault = none ∧ l ≤ w.numThreads ∧ (w.loops l).stack = [] ∧
      (w.loops l).phase = .functors []
  | .run l _ => w.fault = none ∧ l ≤ w.numThreads ∧ (w.loops l).stack ≠ [] ∧
      (w.loops l).stack.head? ≠ some .userCode
  | .call l c _ => w.fault = none ∧ l ≤ w.numThreads ∧ (w.loops l).stack.head? = some .userCode ∧
      c < w.accepted ∧ (w.conns c).loop = l ∧ .connectionCallback c true ∈ w.log
  | .userReturn l => w.fault = none ∧ l ≤ w.numThreads ∧
      (w.loops l).stack.head? = some .userCode
  | .userFunctor l => w.fault = none ∧ l ≤ w.numThreads

/-- A server that has been started: nothing is accepted, every loop polls. -/
def start (name : String) (numThreads : Nat) : ServerState where
  name := name
  numThreads := numThreads
  next := 0
  nextConnId := 1
  connections _ := none
  conns _ := ⟨TcpConnection.new 0 0, Socket.new, 0, ""⟩
  accepted := 0
  loops _ := ⟨.empty, [], .polling, []⟩
  log := []
  fault := none

def system : Transition.System ServerState ServerStep :=
  .guarded (fun w => ∃ name numThreads, w = start name numThreads) Enabled perform

/-- The kernel hands out descriptors that are not in use; it reports a descriptor
    once in a batch, and `POLLHUP` together with `POLLIN`. -/
def KernelBehaves (w : ServerState) : ServerStep → Prop
  | .poll _ ready =>
    (ready.filterMap Ready.fd).Nodup ∧
      ∀ r ∈ ready, r.hupAlone = false
  | .run _ k => ∀ fd ∈ k.accept, ∀ c < w.accepted, (w.conns c).conn.channel.fd ≠ fd
  | .next _ | .swap _ | .again _ | .call _ _ _ | .userReturn _ | .userFunctor _ => True

instance (w : ServerState) (s : ServerStep) : Decidable (w.Enabled s) :=
  match s with
  | .poll _ _ | .next _ | .swap _ | .again _ | .run _ _ | .call _ _ _ | .userReturn _ =>
    inferInstanceAs (Decidable (_ ∧ _ ∧ _))
  | .userFunctor _ => inferInstanceAs (Decidable (_ ∧ _))

instance (w : ServerState) (s : ServerStep) : Decidable (w.KernelBehaves s) :=
  match s with
  | .poll _ _ => inferInstanceAs (Decidable (_ ∧ ∀ r ∈ _, _))
  | .run _ _ => inferInstanceAs (Decidable (∀ fd ∈ _, ∀ c < _, _))
  | .next _ | .swap _ | .again _ | .call _ _ _ | .userReturn _ | .userFunctor _ =>
    inferInstanceAs (Decidable True)

-- ════════════════════════════════════════════════════════════════════════
-- What a step leaves alone
-- ════════════════════════════════════════════════════════════════════════

section Frame

variable {α : Type} {w w' : ServerState} (f : ServerState → α)
  (hf : ∀ w connections conns loops log fault, f { w with
    connections := connections, conns := conns, loops := loops, log := log, fault := fault } = f w)
include hf

theorem runInLoop_frame (l target : Nat) (t : ServerTask) :
    f (w.runInLoop l target t) = f w := by
  unfold runInLoop
  split
  · exact hf w _ _ _ _ _
  · exact hf w _ _ _ _ _

/-- What only `new_connection` may change is left by every other task. -/
theorem runTask_frame {l : Nat} {k : Kernel} {t : ServerTask} (ht : t ≠ .acceptorHandleRead)
    (h : w.runTask l k t = .ok w') : f w' = f w := by
  cases t with
  | handleEvent c revents =>
    cases h
    exact hf w _ _ _ _ _
  | callback c b =>
    cases b with
    | close =>
      cases h
      exact hf w _ _ _ _ _
    | error =>
      cases h
      exact hf w _ _ _ _ _
    | read =>
      obtain ⟨_, _, h⟩ := bind_eq_ok h
      obtain ⟨⟨x, next⟩, _, h⟩ := bind_eq_ok h
      cases next <;> cases h <;> exact hf w _ _ _ _ _
    | write =>
      obtain ⟨_, _, h⟩ := bind_eq_ok h
      obtain ⟨_, _, h⟩ := bind_eq_ok h
      cases h
      exact hf w _ _ _ _ _
  | acceptorHandleRead => exact absurd rfl ht
  | userCode =>
    cases h
    rfl
  | closeCallback c =>
    cases h
    exact runInLoop_frame f hf _ _ _
  | connectEstablished c | handleClose c | removeConnectionInLoop c | connectDestroyed c
  | channelRemove c =>
    obtain ⟨_, _, h⟩ := bind_eq_ok h
    obtain ⟨_, _, h⟩ := bind_eq_ok h
    cases h
    exact hf w _ _ _ _ _

theorem settle_frame {x : Except Fault ServerState} (h : ∀ v, x = .ok v → f v = f w) :
    f (w.settle x) = f w := by
  cases x with
  | ok v => exact h v rfl
  | error e => exact hf w _ _ _ _ _

/-- So it is by the user's calls and by the moves of a loop. -/
theorem perform_frame {step : ServerStep}
    (hrun : ∀ l k, step = .run l k → (w.loops l).stack.head? ≠ some .acceptorHandleRead) :
    f (w.perform step) = f w := by
  cases step with
  | run l k =>
    have hne := hrun l k rfl
    simp only [perform]
    split
    · rfl
    · rename_i t rest hstack
      rw [hstack] at hne
      have ht : t ≠ .acceptorHandleRead := fun heq => hne (congrArg some heq)
      refine settle_frame f hf fun v hv => ?_
      calc f v = f (w.setStack l rest) := runTask_frame f hf ht hv
        _ = f w := hf w _ _ _ _ _
  | call l c u =>
    simp only [perform]
    refine settle_frame f hf fun v hv => ?_
    cases happly : u.apply (w.context c) with
    | error e =>
      rw [happly] at hv
      cases hv
    | ok x =>
      rw [happly] at hv
      cases hv
      exact hf w _ _ _ _ _
  | poll l ready | next l | swap l | again l | userReturn l | userFunctor l =>
    exact hf w _ _ _ _ _

end Frame

end ServerState

end DamnWebServer
