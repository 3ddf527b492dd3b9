import DamnWebServer.Lib.Transition
import DamnWebServer.Net.TcpConnection

/-!
# Sending from another thread

The two overloads of `send`. From the loop's thread both pass the bytes to
`send_in_loop` at once. From any other thread `send(message)` binds a copy of the
string into the functor it leaves to the loop; `send(buf)` binds the pointer
`buf->peek()` and the length, and leaves `buf` as it is. What the functor then finds
behind the pointer is up to what the caller does to `buf` in between.
-/

namespace DamnWebServer

/-- The blocks of the heap by address; `none` where nothing is allocated. -/
abbrev Heap := Nat → Option (List Byte)

/-- Reads `len` bytes through a pointer into a block. Nothing is touched where there
    is nothing to read. -/
def Heap.read (heap : Heap) (block offset len : Nat) : Except Fault (List Byte) :=
  if len = 0 then .ok []
  else
    match heap block with
    | none => .error .dangling
    | some bytes =>
      if offset + len ≤ bytes.length then .ok ((bytes.drop offset).take len) else .error .badCopy

/-- The caller's side: the heap, and the caller's `Buffer` with the block of its
    vector until the `Buffer` is destroyed. -/
structure Caller where
  heap : Heap
  owned : Option (Nat × Buffer)

/-- What the caller may do to its `Buffer`. -/
inductive CallerOp where
  /-- `moved` is the block that the vector moves to if it has to grow beyond its
      capacity. -/
  | append (data : List Byte) (moved : Option Nat)
  | retrieve (len : Nat)
  | retrieveAll
  | destroy
  deriving DecidableEq, Repr

namespace Caller

/-- The readable bytes of the caller's `Buffer`. -/
def readable (m : Caller) : Option (List Byte) := m.owned.map fun p => p.2.readable

def perform (m : Caller) : CallerOp → Except Fault Caller
  | .append data moved =>
    match m.owned with
    | none => .error .dangling
    | some (block, b) => do
      let b' ← b.append data
      match if b.buffer.length < b'.buffer.length then moved else none with
      | none =>
        return ⟨Function.update m.heap block (some b'.buffer), some (block, b')⟩
      | some fresh =>
        return ⟨Function.update (Function.update m.heap block none) fresh (some b'.buffer),
          some (fresh, b')⟩
  | .retrieve len =>
    match m.owned with
    | none => .error .dangling
    | some (block, b) => .ok { m with owned := some (block, b.retrieve len) }
  | .retrieveAll =>
    match m.owned with
    | none => .error .dangling
    | some (block, b) => .ok { m with owned := some (block, b.retrieveAll) }
  | .destroy =>
    match m.owned with
    | none => .error .dangling
    | some (block, _) => .ok ⟨Function.update m.heap block none, none⟩

/-- A vector moves to a block that was free. -/
def Enabled (m : Caller) : CallerOp → Prop
  | .append _ (some fresh) => m.heap fresh = none
  | _ => True

instance (m : Caller) : (op : CallerOp) → Decidable (m.Enabled op)
  | .append _ (some fresh) => inferInstanceAs (Decidable (m.heap fresh = none))
  | .append _ none | .retrieve _ | .retrieveAll | .destroy => .isTrue trivial

/-- Any operations of the caller. -/
def system : Transition.System Caller CallerOp where
  init _ := True
  step m op m' := m.Enabled op ∧ m.perform op = .ok m'

end Caller

/-- What `send` leaves to the loop. -/
inductive QueuedSend where
  /-- `send_in_loop(message)`, with its own copy. -/
  | message (data : List Byte)
  /-- `send_in_loop(data, len)`, with the pointer. -/
  | pointer (block offset len : Nat)
  deriving DecidableEq, Repr

namespace ConnContext

/-- `send_in_loop(data, len)` with a pointer into the heap. A closed connection does
    not look at it. -/
def sendInLoopAt (x : ConnContext) (heap : Heap) (block offset len : Nat) (r : WriteResult) :
    Except Fault ConnContext :=
  if x.conn.state = .kDisconnected then .ok x
  else do
    let data ← heap.read block offset len
    x.sendInLoop data r

/-- The loop runs what was left to it. -/
def runQueued (x : ConnContext) (heap : Heap) (r : WriteResult) :
    Option QueuedSend → Except Fault ConnContext
  | none => .ok x
  | some (.message data) => x.sendInLoop data r
  | some (.pointer block offset len) => x.sendInLoopAt heap block offset len r

/-- `send(const std::string&)`; `inLoop` is `is_in_loop_thread()`. -/
def sendMessage (x : ConnContext) (inLoop : Bool) (message : List Byte) (r : WriteResult) :
    Except Fault (ConnContext × Option QueuedSend) :=
  if x.conn.state = .kConnected then
    if inLoop then do
      let x ← x.sendInLoop message r
      return (x, none)
    else .ok (x, some (.message message))
  else .ok (x, none)

/-- `send(Buffer*)`. -/
def sendBuffer (x : ConnContext) (inLoop : Bool) (m : Caller) (r : WriteResult) :
    Except Fault (ConnContext × Caller × Option QueuedSend) :=
  match m.owned with
  | none => .error .dangling
  | some (block, b) =>
    if x.conn.state = .kConnected then
      if inLoop then do
        let x ← x.sendInLoopAt m.heap block b.peek b.readableBytes r
        return (x, { m with owned := some (block, b.retrieveAll) }, none)
      else .ok (x, m, some (.pointer block b.peek b.readableBytes))
    else .ok (x, m, none)

/-- `send(buf->retrieve_all_as_string())`. -/
def sendDrained (x : ConnContext) (inLoop : Bool) (m : Caller) (r : WriteResult) :
    Except Fault (ConnContext × Caller × Option QueuedSend) :=
  match m.owned with
  | none => .error .dangling
  | some (block, b) => do
    let s ← b.retrieveAllAsString
    let sent ← x.sendMessage inLoop s.2 r
    return (sent.1, { m with owned := some (block, s.1) }, sent.2)

/-- The caller's `Buffer` is empty on return. -/
def Empties (s : Except Fault (ConnContext × Caller × Option QueuedSend)) : Prop :=
  ∀ x m q, s = .ok (x, m, q) → m.readable = some []

/-- The connection is the same on return, and whatever the caller does to its `Buffer`
    then, and however the connection is found, what was left to the loop has the same
    effect on it. -/
def SameStream (s s' : Except Fault (ConnContext × Caller × Option QueuedSend)) : Prop :=
  match s, s' with
  | .ok (x, m, q), .ok (x', _, q') =>
    x = x' ∧ ∀ tr m', Caller.system.Run m tr m' → ∀ (y : ConnContext) (r : WriteResult),
      y.runQueued m'.heap r q = y.runQueued m'.heap r q'
  | .error f, .error g => f = g
  | _, _ => False

variable {x : ConnContext} {inLoop : Bool} {m : Caller} {block : Nat} {b : Buffer}

/-- Through the pointer to a valid `Buffer` one reads its readable bytes. -/
theorem read_peek (hb : b.Valid) (hstored : m.heap block = some b.buffer) :
    m.heap.read block b.peek b.readableBytes = .ok b.readable := by
  have hlen := hb.length_readable
  rw [Heap.read]
  split
  · next hzero =>
    rw [hzero] at hlen
    rw [List.length_eq_zero_iff.mp hlen]
  · have hroom : b.peek + b.readableBytes ≤ b.buffer.length := by
      have hr := hb.reader_le
      have hw := hb.writer_le
      rw [hb.readableBytes_eq, Buffer.peek]
      omega
    simp only [hstored, if_pos hroom]
    rw [hb.readableBytes_eq]
    rfl

theorem sendInLoopAt_peek (hb : b.Valid) (hstored : m.heap block = some b.buffer)
    (y : ConnContext) (r : WriteResult) :
    y.sendInLoopAt m.heap block b.peek b.readableBytes r = y.sendInLoop b.readable r := by
  rw [sendInLoopAt, read_peek hb hstored]
  split
  · next hclosed => rw [sendInLoop, if_pos hclosed]
  · rfl

/-- A length of zero is an empty message, wherever the pointer points. -/
theorem sendInLoopAt_nothing (y : ConnContext) (heap : Heap) (block offset : Nat)
    (r : WriteResult) : y.sendInLoopAt heap block offset 0 r = y.sendInLoop [] r := by
  rw [sendInLoopAt, Heap.read, if_pos rfl]
  split
  · next hclosed => rw [sendInLoop, if_pos hclosed]
  · rfl

theorem sendInLoopAt_freed (hopen : x.conn.state ≠ .kDisconnected) {heap : Heap}
    {offset len : Nat} (hlen : len ≠ 0) (hfree : heap block = none) (r : WriteResult) :
    x.sendInLoopAt heap block offset len r = .error .dangling := by
  rw [sendInLoopAt, if_neg hopen, Heap.read, if_neg hlen, hfree]
  rfl

/-- The connection once its output has drained. -/
def idle (x : ConnContext) : ConnContext :=
  { x with
    conn := { x.conn with
      channel := { x.conn.channel with events := kReadEvent }
      outputBuffer := .new Buffer.kInitialSize } }

theorem sendInLoop_idle (hconn : x.conn.state = .kConnected) (data : List Byte) :
    x.idle.sendInLoop data (.wrote data.length) =
      .ok { x.idle with sock := x.sock.write data (.wrote data.length) } := by
  have hstate : x.idle.conn.state ≠ .kDisconnected := hconn.trans_ne (by decide)
  have hdirect : x.idle.directWrite data (.wrote data.length) =
      ({ x.idle with sock := x.sock.write data (.wrote data.length) }, data.length, false) := rfl
  rw [sendInLoop, if_neg hstate, hdirect]
  exact if_neg fun hless => Nat.lt_irrefl _ hless.2

/-- What `send(buf->retrieve_all_as_string())` does. -/
theorem sendDrained_eq (hown : m.owned = some (block, b)) (hb : b.Valid) (r : WriteResult) :
    x.sendDrained inLoop m r = (x.sendMessage inLoop b.readable r).map fun sent =>
      (sent.1, { m with owned := some (block, b.retrieveAll) }, sent.2) := by
  have hdrain : b.retrieveAllAsString = .ok (b.retrieveAll, b.readable) := by
    rw [Buffer.retrieveAllAsString, Buffer.retrieveAsString_eq hb (Nat.le_refl _), Buffer.retrieve,
      if_neg (Nat.lt_irrefl _), ← hb.length_readable, List.take_length]
  simp only [sendDrained, hown, hdrain, bind, Except.bind]
  cases x.sendMessage inLoop b.readable r <;> rfl

section Connected

variable (hconn : x.conn.state = .kConnected) (hown : m.owned = some (block, b))
include hconn hown

theorem sendBuffer_here (hb : b.Valid) (hstored : m.heap block = some b.buffer) (r : WriteResult) :
    x.sendBuffer true m r = (x.sendInLoop b.readable r).map fun x =>
      (x, { m with owned := some (block, b.retrieveAll) }, none) := by
  simp only [sendBuffer, hown, hconn, if_true, sendInLoopAt_peek hb hstored, bind, Except.bind]
  cases x.sendInLoop b.readable r <;> rfl

theorem sendBuffer_elsewhere (r : WriteResult) :
    x.sendBuffer false m r = .ok (x, m, some (.pointer block b.peek b.readableBytes)) := by
  simp only [sendBuffer, hown, hconn, if_true, Bool.false_eq_true, if_false]

/-- The `Buffer` is emptied in the loop's thread only. -/
theorem empties_iff (hb : b.Valid) (hstored : m.heap block = some b.buffer) :
    (∀ r, Empties (x.sendBuffer inLoop m r)) ↔ inLoop = true ∨ b.readable = [] := by
  have hreadable : m.readable = some b.readable := by
    rw [Caller.readable, hown]
    rfl
  cases inLoop with
  | true =>
    refine ⟨fun _ => Or.inl rfl, fun _ r x' m' q hsent => ?_⟩
    rw [sendBuffer_here hconn hown hb hstored] at hsent
    cases hx : x.sendInLoop b.readable r with
    | error f =>
      rw [hx] at hsent
      cases hsent
    | ok y =>
      rw [hx] at hsent
      cases hsent
      exact congrArg some b.retrieveAll_readable
  | false =>
    constructor
    · intro hall
      have hempty := hall (.wrote 0) x m _ (sendBuffer_elsewhere hconn hown _)
      rw [hreadable] at hempty
      exact Or.inr (Option.some.inj hempty)
    · rintro (hno | hempty) r x' m' q hsent
      · cases hno
      · rw [sendBuffer_elsewhere hconn hown] at hsent
        cases hsent
        rw [hreadable, hempty]

/-- The functor finds the bytes if there are none, or if it was run at once. -/
theorem sameStream_iff (hb : b.Valid) (hstored : m.heap block = some b.buffer) :
    (∀ r, SameStream (x.sendBuffer inLoop m r) (x.sendDrained inLoop m r)) ↔
      inLoop = true ∨ b.readable = [] := by
  cases inLoop with
  | true =>
    refine ⟨fun _ => Or.inl rfl, fun _ r => ?_⟩
    rw [sendBuffer_here hconn hown hb hstored, sendDrained_eq hown hb, sendMessage, if_pos hconn]
    cases x.sendInLoop b.readable r with
    | error f => rfl
    | ok y => exact ⟨rfl, fun _ _ _ _ _ => rfl⟩
  | false =>
    have hmessage : ∀ r, x.sendDrained false m r = .ok (x,
        { m with owned := some (block, b.retrieveAll) }, some (.message b.readable)) := by
      intro r
      rw [sendDrained_eq hown hb, sendMessage, if_pos hconn]
      rfl
    constructor
    · intro hall
      by_contra hno
      have hne : b.readable ≠ [] := fun hempty => hno (Or.inr hempty)
      have hsame := hall (.wrote 0)
      rw [sendBuffer_elsewhere hconn hown, hmessage] at hsame
      -- the caller destroys the `Buffer`, and the functor reads freed memory
      have hdestroy : Caller.system.step m .destroy ⟨Function.update m.heap block none, none⟩ := by
        refine ⟨trivial, ?_⟩
        rw [Caller.perform, hown]
      have hrun := hsame.2 _ _ (.single hdestroy) x.idle (.wrote b.readable.length)
      rw [runQueued, runQueued, sendInLoop_idle hconn] at hrun
      rw [sendInLoopAt_freed (x := x.idle) (hconn.trans_ne (by decide)) ?_
        (Function.update_self _ _ _)] at hrun
      · cases hrun
      · rw [← hb.length_readable]
        exact fun hzero => hne (List.length_eq_zero_iff.mp hzero)
    · rintro (hno | hempty) r
      · cases hno
      · rw [sendBuffer_elsewhere hconn hown, hmessage]
        refine ⟨rfl, fun tr m' _ y r' => ?_⟩
        have hzero : b.readableBytes = 0 := by
          rw [← hb.length_readable, hempty]
          rfl
        rw [hempty, runQueued, runQueued, hzero, sendInLoopAt_nothing]

/-- **The two overloads agree** on what becomes of the `Buffer`, and on what the
    connection transmits, if and only if the caller is the loop's thread or the
    `Buffer` has nothing to send. -/
theorem send_overloads_agree_iff (hb : b.Valid) (hstored : m.heap block = some b.buffer) :
    ((∀ r, Empties (x.sendBuffer inLoop m r)) ↔ inLoop = true ∨ b.readable = []) ∧
      ((∀ r, SameStream (x.sendBuffer inLoop m r) (x.sendDrained inLoop m r)) ↔
        inLoop = true ∨ b.readable = []) :=
  ⟨empties_iff hconn hown hb hstored, sameStream_iff hconn hown hb hstored⟩

end Connected

/-- A connection with nothing pending. -/
def sampleContext : ConnContext :=
  ⟨{ TcpConnection.new 8 3 with state := .kConnected }, .empty, .new⟩

/-- A caller whose `Buffer` holds one byte. -/
def sampleCaller : Caller :=
  ⟨Function.update (fun _ => none) 16 (some (Buffer.holding [1]).buffer), some (16, .holding [1])⟩

theorem send_overloads_agree_iff_sample :
    (Buffer.holding [1]).readable ≠ [] ∧ ∀ r, Empties (sampleContext.sendBuffer true sampleCaller r) ∧
      SameStream (sampleContext.sendBuffer true sampleCaller r)
        (sampleContext.sendDrained true sampleCaller r) := by
  have hb : (Buffer.holding [1]).Valid := Buffer.holding_valid (by decide)
  have hempties : ∀ r, Empties (sampleContext.sendBuffer true sampleCaller r) :=
    (send_overloads_agree_iff rfl rfl hb rfl).1.mpr (Or.inl rfl)
  have hstream : ∀ r, SameStream (sampleContext.sendBuffer true sampleCaller r)
      (sampleContext.sendDrained true sampleCaller r) :=
    (send_overloads_agree_iff rfl rfl hb rfl).2.mpr (Or.inl rfl)
  exact ⟨by decide, fun r => ⟨hempties r, hstream r⟩⟩

/-- Another thread sends the byte 1, then puts the byte 2 into the same `Buffer`: the
    loop transmits the 2. -/
theorem send_buffer_other_bytes :
    ¬∀ (x : ConnContext) (inLoop : Bool) (m : Caller) (block : Nat) (b : Buffer),
      x.conn.state = .kConnected → m.owned = some (block, b) → b.Valid →
        m.heap block = some b.buffer →
          ∀ r, Empties (x.sendBuffer inLoop m r) ∧
            SameStream (x.sendBuffer inLoop m r) (x.sendDrained inLoop m r) := by
  intro hall
  have hsame := (hall sampleContext false sampleCaller 16 (.holding [1]) rfl rfl
    (Buffer.holding_valid (by decide)) rfl (.wrote 0)).2
  let reused : Caller :=
    ⟨Function.update (Function.update (fun _ => none) 16 (some (Buffer.holding [1]).buffer)) 16
      (some (Buffer.holding [2]).buffer), some (16, .holding [2])⟩
  have hdrain : Caller.system.step sampleCaller .retrieveAll
      { sampleCaller with owned := some (16, (Buffer.holding [1]).retrieveAll) } := ⟨trivial, rfl⟩
  have happend : Caller.system.step
      { sampleCaller with owned := some (16, (Buffer.holding [1]).retrieveAll) } (.append [2] none)
      reused := ⟨trivial, rfl⟩
  have hrun : Caller.system.Run sampleCaller [.retrieveAll, .append [2] none] reused :=
    .snoc (.snoc .nil hdrain) happend
  have heffect := hsame.2 _ _ hrun sampleContext (.wrote 1)
  have hwritten := congrArg (fun y => y.toOption.map fun y => y.sock.written) heffect
  revert hwritten
  decide

end ConnContext

end DamnWebServer
