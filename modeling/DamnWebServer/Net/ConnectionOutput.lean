import DamnWebServer.Net.TcpConnection

/-!
# The output stream of a connection

Bytes reach the socket by two routes: the direct `::write` in `send_in_loop` and
the drain in `handle_write`. `Streaming` ties the write interest of the channel
to the output buffer; under it both routes keep
`written ++ readable bytes of output_buffer_`, and a send adds its payload at the
end.
-/

namespace DamnWebServer

namespace ConnContext

structure Streaming (x : ConnContext) : Prop where
  tracks : x.poller.Tracks x.conn.channel
  added : x.conn.channel.index = .kAdded
  reading : x.conn.channel.events.pollin = true
  output : x.conn.outputBuffer.Valid
  writing_iff : x.isWriting = true ↔ x.conn.outputBuffer.readable ≠ []

/-- Everything accepted for the peer: what the socket took and what waits. -/
def stream (x : ConnContext) : List Byte := x.sock.written ++ x.conn.outputBuffer.readable

namespace Streaming

variable {x : ConnContext}

theorem readableBytes_eq_zero_iff (h : x.Streaming) :
    x.conn.outputBuffer.readableBytes = 0 ↔ x.conn.outputBuffer.readable = [] := by
  rw [← h.output.length_readable, List.length_eq_zero_iff]

/-- Changing the socket leaves the tie between channel and buffer alone. -/
theorem of_sock (h : x.Streaming) (s : Socket) : ({ x with sock := s } : ConnContext).Streaming :=
  ⟨h.tracks, h.added, h.reading, h.output, h.writing_iff⟩

theorem of_state (h : x.Streaming) (s : StateE) : (x.setState s).Streaming :=
  ⟨h.tracks, h.added, h.reading, h.output, h.writing_iff⟩

/-- After a mask change that keeps `POLLIN` the tie holds again when the new
    write interest fits the buffer. -/
theorem of_mask (h : x.Streaming) (events : PollMask)
    (op : Poller → Channel → Except Fault (Poller × Channel))
    (hop : ∀ p, op p x.conn.channel = p.setEvents x.conn.channel events)
    {out : Buffer} (hout : out.Valid) (hin : events.pollin = true)
    (hwr : events.pollout = true ↔ out.readable ≠ []) :
    ∃ y, (x.setOutput out).onChannel op = .ok y ∧ y.Streaming ∧ y.sock = x.sock ∧
      y.conn.state = x.conn.state ∧ y.conn.outputBuffer = out := by
  have hne : events ≠ kNoneEvent := by
    intro he
    rw [he] at hin
    cases hin
  have hidx : Poller.nextIndex x.conn.channel.index events = .kAdded := by
    simp [Poller.nextIndex, hne]
  obtain ⟨p, hok, htracks, _, _⟩ :=
    onChannel_setEvents (x := x.setOutput out) h.tracks op events (hop _)
  refine ⟨_, hok, ⟨htracks, ?_, hin, hout, hwr⟩, rfl, rfl, rfl⟩
  exact hidx

end Streaming

theorem take_append_drop_stream {data : List Byte} {w : List Byte} (n : Nat) :
    w ++ data.take n ++ data.drop n = w ++ data := by
  rw [List.append_assoc, List.take_append_drop]

/-- The direct write hands a front part of the data to the socket. -/
theorem directWrite_spec {x : ConnContext} (h : x.Streaming) {data : List Byte} {r : WriteResult}
    (hfit : r.Fits data.length) (hopen : r.Open) :
    ∃ y n, x.directWrite data r = (y, n, false) ∧ n ≤ data.length ∧ y.Streaming ∧
      y.conn = x.conn ∧ y.sock.written = x.sock.written ++ data.take n ∧
      y.sock.shutWrCalls = x.sock.shutWrCalls ∧
      (x.conn.outputBuffer.readable ≠ [] → n = 0) := by
  unfold directWrite
  split
  · next hidle =>
    have hempty := h.readableBytes_eq_zero_iff.mp hidle.2
    cases r with
    | wrote n =>
      exact ⟨_, n, rfl, hfit, h.of_sock _, rfl, rfl, rfl, fun hne => absurd hempty hne⟩
    | error e =>
      have hno : decide (e = .epipe ∨ e = .econnreset) = false := by
        simpa using not_or.mpr hopen
      refine ⟨{ x with sock := x.sock.write data (.error e) }, 0, by simp only [hno],
        Nat.zero_le _, h.of_sock _, rfl, ?_, rfl, fun _ => rfl⟩
      simp [Socket.write]
  · exact ⟨x, 0, rfl, Nat.zero_le _, h, rfl, by simp, rfl, fun _ => rfl⟩

/-- What a send of `data` amounts to. -/
structure Sent (x : ConnContext) (data : List Byte) (y : ConnContext) : Prop where
  streaming : y.Streaming
  stream : y.stream = x.stream ++ data
  state : y.conn.state = x.conn.state
  shutWrCalls : y.sock.shutWrCalls = x.sock.shutWrCalls

/-- The direct write takes everything, or `append` is called with the rest and the
    send is done as soon as it has enqueued it. -/
theorem sendInLoop_split {x : ConnContext} (h : x.Streaming) {data : List Byte} {r : WriteResult}
    (hstate : x.conn.state ≠ .kDisconnected) (hfit : r.Fits data.length) (hopen : r.Open) :
    (∃ y, x.sendInLoop data r = .ok y ∧ x.Sent data y) ∨
      ∃ n finish, x.sendInLoop data r = x.conn.outputBuffer.append (data.drop n) >>= finish ∧
        ∀ out : Buffer, out.Valid → out.readable = x.conn.outputBuffer.readable ++ data.drop n →
          ∃ y, finish out = .ok y ∧ x.Sent data y := by
  obtain ⟨w, n, hw, hn, hws, hconn, hwritten, hshut, hzero⟩ := directWrite_spec h hfit hopen
  rw [sendInLoop, if_neg hstate, hw]
  by_cases hrest : n < data.length
  · -- the rest is buffered and the channel watches for room
    simp only [Bool.not_false, true_and, if_pos hrest, hconn]
    refine Or.inr ⟨n, _, rfl, ?_⟩
    intro out hv hr
    have hne : out.readable ≠ [] := by
      rw [hr]
      intro hnil
      have hl := congrArg List.length (List.append_eq_nil_iff.mp hnil).2
      rw [List.length_drop, List.length_nil] at hl
      omega
    have hstream : w.sock.written ++ out.readable = x.stream ++ data := by
      rw [hwritten, hr, stream]
      by_cases he : x.conn.outputBuffer.readable = []
      · rw [he, List.nil_append, List.append_nil, take_append_drop_stream]
      · rw [hzero he]
        simp
    by_cases hwr : (w.setOutput out).isWriting = true
    · refine ⟨w.setOutput out, if_neg (by simp [hwr]), ⟨hws.tracks, hws.added, hws.reading, hv, ?_⟩,
        hstream, ?_, hshut⟩
      · exact ⟨fun _ => hne, fun _ => hwr⟩
      · change w.conn.state = _
        rw [hconn]
    · obtain ⟨y, hok, hys, hsock, hst, hob⟩ :=
        hws.of_mask (w.conn.channel.events.or kWriteEvent) Poller.enableWriting (fun _ => rfl) hv
          (by simp [PollMask.or, hws.reading]) (by simp [PollMask.or, kWriteEvent, hne])
      refine ⟨y, ?_, hys, ?_, ?_, ?_⟩
      · rw [if_pos (by simpa using hwr)]
        exact hok
      · rw [stream, hsock, hob, hstream]
      · rw [hst, hconn]
      · rw [hsock, hshut]
  · -- everything was written at once
    left
    simp only [Bool.not_false, true_and, if_neg hrest]
    refine ⟨w, rfl, hws, ?_, by rw [hconn], hshut⟩
    have hall : data.take n = data := List.take_of_length_le (by omega)
    rw [stream, stream, hconn, hwritten, hall]
    by_cases he : x.conn.outputBuffer.readable = []
    · rw [he]
      simp
    · have hnil : data = [] := List.length_eq_zero_iff.mp (by have := hzero he; omega)
      simp [hnil]

/-- **Sending.** The payload goes behind everything accepted so far, whatever
    part of it the direct write took. -/
theorem sendInLoop_spec {x : ConnContext} (h : x.Streaming) {data : List Byte} {r : WriteResult}
    (hstate : x.conn.state ≠ .kDisconnected) (hlen : data.length ≤ 2 ^ 31 - 1)
    (hfit : r.Fits data.length) (hopen : r.Open) :
    ReturnsUnless (maxSize < x.conn.outputBuffer.writerIndex + data.length)
      (x.sendInLoop data r) fun y => x.Sent data y := by
  rcases sendInLoop_split h hstate hfit hopen with hdone | ⟨n, finish, heq, hfinish⟩
  · exact Or.inl hdone
  · have hdrop : (data.drop n).length ≤ data.length := (List.drop_sublist n data).length_le
    rw [heq]
    have happ := Buffer.append_spec h.output (Nat.lt_of_le_of_lt hdrop (by omega))
    refine (happ.imp (by omega) fun _ hp => hp).bind ?_
    rintro out ⟨hv, hr, _⟩
    exact Or.inl (hfinish out hv hr)

/-- The same of a payload of any length, when the send does return. -/
theorem sendInLoop_returned {x y : ConnContext} (h : x.Streaming) {data : List Byte}
    {r : WriteResult} (hstate : x.conn.state ≠ .kDisconnected) (hfit : r.Fits data.length)
    (hopen : r.Open) (hok : x.sendInLoop data r = .ok y) : x.Sent data y := by
  rcases sendInLoop_split h hstate hfit hopen with ⟨z, hz, hsent⟩ | ⟨n, finish, heq, hfinish⟩
  · cases hz.symm.trans hok
    exact hsent
  · rw [heq] at hok
    obtain ⟨out, happ, hend⟩ := bind_eq_ok hok
    obtain ⟨hv, hr⟩ := Buffer.append_intact h.output happ
    obtain ⟨z, hz, hsent⟩ := hfinish out hv hr
    cases hz.symm.trans hend
    exact hsent

theorem drained_spec {x : ConnContext} (h : x.Streaming) (hwr : x.isWriting = true) (n : Nat) :
    ∃ y, x.drained n = .ok y ∧ y.Streaming ∧ y.sock.written = x.sock.written ∧
      y.conn.outputBuffer.readable = x.conn.outputBuffer.readable.drop n ∧
      y.conn.state = x.conn.state ∧
      (y.sock.shutWrCalls = x.sock.shutWrCalls ∨
        y.sock.shutWrCalls = x.sock.shutWrCalls + 1 ∧ x.conn.state = .kDisconnecting ∧
          y.conn.outputBuffer.readable = []) := by
  have hv := Buffer.retrieve_valid h.output n
  have hr := Buffer.retrieve_readable h.output n
  simp only [drained]
  by_cases hzero : (x.setOutput (x.conn.outputBuffer.retrieve n)).conn.outputBuffer.readableBytes = 0
  · have hnil : (x.conn.outputBuffer.retrieve n).readable = [] := by
      rw [← List.length_eq_zero_iff, hv.length_readable]
      exact hzero
    obtain ⟨y, hok, hys, hsock, hst, hob⟩ :=
      h.of_mask (x.conn.channel.events.without kWriteEvent) Poller.disableWriting (fun _ => rfl) hv
        (by simp [PollMask.without, kWriteEvent, h.reading])
        (by simp [PollMask.without, kWriteEvent, hnil])
    have hyr : y.conn.outputBuffer.readable = x.conn.outputBuffer.readable.drop n := by
      rw [hob, hr]
    rw [if_pos hzero, hok]
    by_cases hdisc : y.conn.state = .kDisconnecting
    · have hidle : y.isWriting = false := by
        have hiff := hys.writing_iff
        rw [hob, hnil] at hiff
        simpa using hiff
      have hshut : y.shutDownInLoop =
          { y with sock := { y.sock with shutWrCalls := y.sock.shutWrCalls + 1 } } := by
        simp [shutDownInLoop, hidle]
      refine ⟨y.shutDownInLoop, by simp [bind, Except.bind, pure, Except.pure, hdisc], ?_⟩
      rw [hshut]
      refine ⟨hys.of_sock _, ?_, hyr, hst, Or.inr ⟨?_, ?_, ?_⟩⟩
      · change y.sock.written = _
        rw [hsock]
      · change y.sock.shutWrCalls + 1 = _
        rw [hsock]
      · rw [← hst, hdisc]
      · exact hob ▸ hnil
    · refine ⟨y, by simp [bind, Except.bind, pure, Except.pure, hdisc], hys, ?_, hyr, hst,
        Or.inl ?_⟩
      · rw [hsock]
      · rw [hsock]
  · rw [if_neg hzero]
    refine ⟨_, rfl, ⟨h.tracks, h.added, h.reading, hv, ?_⟩, rfl, hr, rfl, Or.inl rfl⟩
    refine ⟨fun _ hnil => hzero ?_, fun _ => hwr⟩
    exact hv.length_readable.symm.trans (congrArg List.length hnil)

/-- **Draining.** `handle_write` moves bytes from the buffer to the socket. It
    half-closes exactly when it emptied the buffer of a connection that is
    shutting down. -/
theorem handleWrite_spec {x : ConnContext} (h : x.Streaming) (r : WriteResult) :
    ∃ y, x.handleWrite r = .ok y ∧ y.Streaming ∧ y.stream = x.stream ∧
      y.conn.state = x.conn.state ∧
      (y.sock.shutWrCalls = x.sock.shutWrCalls ∨
        y.sock.shutWrCalls = x.sock.shutWrCalls + 1 ∧ x.isWriting = true ∧
          x.conn.state = .kDisconnecting ∧ y.conn.outputBuffer.readable = [] ∧
          ∃ n, r = .wrote n ∧ x.conn.outputBuffer.readableBytes ≤ n) := by
  unfold handleWrite
  by_cases hwr : x.isWriting = true
  · rw [if_pos hwr]
    have hw := h.of_sock (x.sock.write x.conn.outputBuffer.readable r)
    cases r with
    | error e => exact ⟨_, rfl, hw, rfl, rfl, Or.inl rfl⟩
    | wrote n =>
      by_cases hn : 0 < n
      · obtain ⟨y, hok, hys, hwritten, hyr, hst, hshut⟩ := drained_spec hw hwr n
        refine ⟨y, by simpa [hn] using hok, hys, ?_, hst, ?_⟩
        · rw [stream, hwritten, hyr]
          exact take_append_drop_stream n
        · rcases hshut with hsame | ⟨hone, hdisc, hnil⟩
          · exact Or.inl hsame
          · refine Or.inr ⟨hone, hwr, hdisc, hnil, n, rfl, ?_⟩
            rw [hyr, List.drop_eq_nil_iff] at hnil
            exact h.output.length_readable ▸ hnil
      · have hn0 : n = 0 := by omega
        subst hn0
        refine ⟨_, if_neg hn, hw, ?_, rfl, Or.inl rfl⟩
        simp [stream, Socket.write]
  · exact ⟨x, if_neg hwr, h, rfl, rfl, Or.inl rfl⟩

-- ════════════════════════════════════════════════════════════════════════
-- Whatever `::write` returns
-- ════════════════════════════════════════════════════════════════════════

theorem onChannel_sock {x y : ConnContext} {op : Poller → Channel → Except Fault (Poller × Channel)}
    (hok : x.onChannel op = .ok y) : y.sock = x.sock := by
  obtain ⟨r, _, hend⟩ := bind_eq_ok hok
  cases hend
  rfl

theorem write_written (s : Socket) (data : List Byte) (r : WriteResult) :
    s.written <+: (s.write data r).written := by
  cases r with
  | wrote n => exact List.prefix_append _ _
  | error e => exact List.prefix_rfl

/-- Nothing that was written is taken back. -/
theorem sendInLoop_written {x y : ConnContext} {data : List Byte} {r : WriteResult}
    (hok : x.sendInLoop data r = .ok y) : x.sock.written <+: y.sock.written := by
  have hdirect : x.sock.written <+: (x.directWrite data r).1.sock.written := by
    unfold directWrite
    split
    · cases r with
      | wrote n => exact write_written _ _ _
      | error e => exact write_written _ _ _
    · exact List.prefix_rfl
  simp only [sendInLoop] at hok
  split at hok
  · cases hok
    exact List.prefix_rfl
  · split at hok
    · obtain ⟨out, _, hend⟩ := bind_eq_ok hok
      split at hend
      · rw [onChannel_sock hend]
        exact hdirect
      · cases hend
        exact hdirect
    · cases hok
      exact hdirect

theorem shutDownInLoop_written (x : ConnContext) : x.shutDownInLoop.sock.written = x.sock.written := by
  unfold shutDownInLoop
  split <;> rfl

theorem drained_written {x y : ConnContext} {n : Nat} (hok : x.drained n = .ok y) :
    y.sock.written = x.sock.written := by
  simp only [drained] at hok
  split at hok
  · obtain ⟨z, hch, hend⟩ := bind_eq_ok hok
    have hsock : z.sock = x.sock := (onChannel_sock hch).trans rfl
    cases hend
    split
    · rw [shutDownInLoop_written, hsock]
    · rw [hsock]
  · cases hok
    rfl

theorem handleWrite_written {x y : ConnContext} {r : WriteResult} (hok : x.handleWrite r = .ok y) :
    x.sock.written <+: y.sock.written := by
  have hwrite := write_written x.sock x.conn.outputBuffer.readable r
  rw [handleWrite] at hok
  split at hok
  · cases r with
    | error e =>
      cases hok
      exact hwrite
    | wrote n =>
      simp only at hok
      split at hok
      · rw [drained_written hok]
        exact hwrite
      · cases hok
        exact hwrite
  · cases hok
    exact List.prefix_rfl

end ConnContext

-- ════════════════════════════════════════════════════════════════════════
-- Runs of one established connection
-- ════════════════════════════════════════════════════════════════════════

/-- What happens to an established connection in its loop's thread, with the
    result of the `::write` each call may make. -/
inductive OutputCall where
  | send (data : List Byte) (r : WriteResult)
  | sendBuffer (buf : Buffer) (r : WriteResult)
  | handleWrite (r : WriteResult)
  | shutdown
  deriving DecidableEq, Repr

namespace OutputCall

def payload : OutputCall → List Byte
  | .send data _ => data
  | .sendBuffer buf _ => buf.readable
  | .handleWrite _ | .shutdown => []

def isShutdown : OutputCall → Bool
  | .shutdown => true
  | .send _ _ | .sendBuffer _ _ | .handleWrite _ => false

/-- The payloads of the sends made before the first `shutdown()`. -/
def sentBeforeShutdown (tr : List OutputCall) : List Byte :=
  (tr.takeWhile fun c => !c.isShutdown).flatMap payload

end OutputCall

/-- The connection, and the payloads of the sends made while it was
    `k_connected`, in call order. -/
structure OutputState where
  ctx : ConnContext
  accepted : List Byte

namespace OutputState

def run (s : OutputState) : OutputCall → Except Fault ConnContext
  | .send data r => s.ctx.sendHere data r
  | .sendBuffer buf r => return (← s.ctx.sendBufferHere buf r).1
  | .handleWrite r => s.ctx.handleWrite r
  | .shutdown => .ok s.ctx.shutdownHere

def next (s : OutputState) (c : OutputCall) : Except Fault OutputState := do
  let ctx ← s.run c
  return ⟨ctx, if s.ctx.conn.connected then s.accepted ++ c.payload else s.accepted⟩

/-- A payload an `int` can carry, and a result `::write` can give to the bytes
    it was asked to write, other than `EPIPE` and `ECONNRESET`. -/
def Admissible (s : OutputState) : OutputCall → Prop
  | .send data r => data.length ≤ 2 ^ 31 - 1 ∧ r.Fits data.length ∧ r.Open
  | .sendBuffer buf r =>
    buf.Valid ∧ buf.readableBytes ≤ 2 ^ 31 - 1 ∧ r.Fits buf.readableBytes ∧ r.Open
  | .handleWrite r => r.Fits s.ctx.conn.outputBuffer.readableBytes ∧ r.Open
  | .shutdown => True

/-- Runs start right after `connect_established` of a new connection. -/
def system : Transition.System OutputState OutputCall where
  init s := s.accepted = [] ∧ ∃ addr fd p, p.Tracks (TcpConnection.new addr fd).channel ∧
    (⟨TcpConnection.new addr fd, p, Socket.new⟩ : ConnContext).connectEstablished = .ok s.ctx
  step s c t := s.Admissible c ∧ s.next c = .ok t

/-- The invariant of a run with the calls `tr` so far. -/
structure Inv (tr : List OutputCall) (s : OutputState) : Prop where
  streaming : s.ctx.Streaming
  stream : s.ctx.stream = s.accepted
  accepted : s.accepted = OutputCall.sentBeforeShutdown tr
  up : tr.any OutputCall.isShutdown = false →
    s.ctx.conn.state = .kConnected ∧ s.ctx.sock.shutWrCalls = 0
  down : tr.any OutputCall.isShutdown = true → s.ctx.conn.state = .kDisconnecting ∧
    (s.ctx.isWriting = true → s.ctx.sock.shutWrCalls = 0) ∧ s.ctx.sock.shutWrCalls ≤ 1

theorem init_inv {s : OutputState} (h : system.init s) : Inv [] s := by
  obtain ⟨hacc, addr, fd, p, htracks, hok⟩ := h
  obtain ⟨q, hset, hq, _⟩ := ConnContext.connectEstablished_spec
    (x := ⟨TcpConnection.new addr fd, p, Socket.new⟩) htracks rfl
  have hctx := Except.ok.inj (hok.symm.trans hset)
  have hout : s.ctx.conn.outputBuffer = Buffer.new Buffer.kInitialSize := by
    rw [hctx]
    rfl
  refine ⟨⟨?_, ?_, ?_, ?_, ?_⟩, ?_, hacc, fun _ => ⟨?_, ?_⟩, nofun⟩
  · rw [hctx]
    exact hq
  · rw [hctx]
    rfl
  · rw [hctx]
    rfl
  · rw [hout]
    exact Buffer.new_valid (by decide)
  · rw [hout, Buffer.new_readable, hctx]
    exact ⟨nofun, fun hne => absurd rfl hne⟩
  · rw [ConnContext.stream, hout, hacc, Buffer.new_readable, hctx]
    rfl
  · rw [hctx]
    rfl
  · rw [hctx]
    rfl

theorem any_isShutdown_snoc (tr : List OutputCall) (c : OutputCall) :
    (tr ++ [c]).any OutputCall.isShutdown = (tr.any OutputCall.isShutdown || c.isShutdown) := by
  simp [List.any_append]

/-- A call counts for the payloads before the first `shutdown()` as long as
    there was none. -/
theorem sentBeforeShutdown_snoc (tr : List OutputCall) (c : OutputCall) :
    OutputCall.sentBeforeShutdown (tr ++ [c]) =
      if tr.any OutputCall.isShutdown then OutputCall.sentBeforeShutdown tr
      else OutputCall.sentBeforeShutdown tr ++ c.payload := by
  induction tr with
  | nil => cases c <;> simp [OutputCall.sentBeforeShutdown, OutputCall.isShutdown, OutputCall.payload]
  | cons a tr ih =>
    unfold OutputCall.sentBeforeShutdown at ih ⊢
    cases ha : a.isShutdown with
    | true => simp [ha]
    | false =>
      simp only [List.cons_append, List.takeWhile_cons, ha, Bool.not_false, if_true,
        List.flatMap_cons, List.any_cons, Bool.false_or, ih]
      split <;> simp

/-- `send(buf)` does to the connection what `send` of its readable bytes does. -/
theorem run_sendBuffer (s : OutputState) (buf : Buffer) (r : WriteResult) :
    s.run (.sendBuffer buf r) = s.run (.send buf.readable r) := by
  simp only [run, ConnContext.sendBufferHere, ConnContext.sendHere]
  cases s.ctx.send buf.readable with
  | none => rfl
  | some f =>
    cases hf : s.ctx.runFunctor r f with
    | error e => simp [hf, bind, Except.bind]
    | ok y => simp [hf, bind, Except.bind, pure, Except.pure]

theorem send_step {tr : List OutputCall} {s : OutputState} (h : Inv tr s) {c : OutputCall}
    {data : List Byte} {r : WriteResult} (hrun : s.run c = s.run (.send data r))
    (hpay : c.payload = data) (hc : c.isShutdown = false) (hlen : data.length ≤ 2 ^ 31 - 1)
    (hfit : r.Fits data.length) (hopen : r.Open) :
    ReturnsUnless (maxSize < s.ctx.conn.outputBuffer.writerIndex + c.payload.length) (s.next c)
      fun t => Inv (tr ++ [c]) t := by
  have hsent := sentBeforeShutdown_snoc tr c
  have hany := any_isShutdown_snoc tr c
  rw [hc, Bool.or_false] at hany
  cases htr : tr.any OutputCall.isShutdown with
  | false =>
    obtain ⟨hstate, hshut⟩ := h.up htr
    have hsend : s.run (.send data r) = s.ctx.sendInLoop data r := by
      simp [run, ConnContext.sendHere, ConnContext.send, hstate, ConnContext.runFunctor]
    rw [next, hrun, hsend, hpay]
    refine (ConnContext.sendInLoop_spec h.streaming (by rw [hstate]; nofun) hlen hfit hopen).bind ?_
    rintro y ⟨hys, hstream, hst, hsh⟩
    rw [TcpConnection.connected, hstate]
    refine .of_ok ⟨hys, ?_, ?_, ?_, ?_⟩
    · rw [hstream, h.stream]
      rfl
    · rw [hsent, htr, hpay]
      exact congrArg (· ++ data) h.accepted
    · intro _
      exact ⟨hst.trans hstate, hsh.trans hshut⟩
    · intro hbad
      rw [hany, htr] at hbad
      cases hbad
  | true =>
    -- after `shutdown()` a send does nothing
    obtain ⟨hstate, hdown⟩ := h.down htr
    have hsend : s.run (.send data r) = .ok s.ctx := by
      simp [run, ConnContext.sendHere, ConnContext.send, hstate]
    rw [next, hrun, hsend, TcpConnection.connected, hstate]
    refine .of_ok ⟨h.streaming, h.stream, ?_, ?_, fun _ => ⟨hstate, hdown⟩⟩
    · rw [hsent, htr]
      exact h.accepted
    · intro hbad
      rw [hany, htr] at hbad
      cases hbad

theorem handleWrite_step {tr : List OutputCall} {s : OutputState} (h : Inv tr s)
    (r : WriteResult) :
    ∃ t, s.next (.handleWrite r) = .ok t ∧ Inv (tr ++ [.handleWrite r]) t := by
  have hsent := sentBeforeShutdown_snoc tr (.handleWrite r)
  have hany := any_isShutdown_snoc tr (.handleWrite r)
  obtain ⟨y, hok, hys, hstream, hst, hshut⟩ := ConnContext.handleWrite_spec h.streaming r
  refine ⟨⟨y, s.accepted⟩, ?_, hys, hstream.trans h.stream, ?_, ?_, ?_⟩
  · simp only [next, run, hok, OutputCall.payload, List.append_nil, ite_self]
    rfl
  · rw [hsent]
    split <;> simp [h.accepted, OutputCall.payload]
  · intro hno
    rw [hany, Bool.or_eq_false_iff] at hno
    obtain ⟨hup, hzero⟩ := h.up hno.1
    refine ⟨hst.trans hup, ?_⟩
    rcases hshut with hsame | ⟨_, _, hdisc, _⟩
    · exact hsame.trans hzero
    · rw [hup] at hdisc
      cases hdisc
  · intro hyes
    rw [hany, show OutputCall.isShutdown (.handleWrite r) = false from rfl, Bool.or_false] at hyes
    obtain ⟨hdisc, hwait, hone⟩ := h.down hyes
    refine ⟨hst.trans hdisc, ?_⟩
    rcases hshut with hsame | ⟨hplus, hwr, _, hnil, _⟩
    · refine ⟨fun hw => ?_, hsame.symm ▸ hone⟩
      by_cases hwas : s.ctx.isWriting = true
      · exact hsame.trans (hwait hwas)
      · -- an idle connection is left alone
        have hsame : s.ctx.handleWrite r = .ok s.ctx := if_neg hwas
        have hy : y = s.ctx := Except.ok.inj (hok.symm.trans hsame)
        exact absurd (hy ▸ hw) hwas
    · rw [hwait hwr] at hplus
      refine ⟨fun hw => absurd hnil (hys.writing_iff.mp hw), Nat.le_of_eq hplus⟩

theorem shutdown_step {tr : List OutputCall} {s : OutputState} (h : Inv tr s) :
    ∃ t, s.next .shutdown = .ok t ∧ Inv (tr ++ [.shutdown]) t := by
  have hsent := sentBeforeShutdown_snoc tr .shutdown
  have hacc : s.accepted = OutputCall.sentBeforeShutdown (tr ++ [.shutdown]) := by
    rw [hsent]
    split <;> simp [h.accepted, OutputCall.payload]
  refine ⟨⟨s.ctx.shutdownHere, s.accepted⟩, ?_, ?_⟩
  · simp only [next, run, OutputCall.payload, List.append_nil, ite_self]
    rfl
  cases htr : tr.any OutputCall.isShutdown with
  | false =>
    -- the first call: half-close at once unless output is pending
    obtain ⟨hstate, hzero⟩ := h.up htr
    have hhere : s.ctx.shutdownHere = (s.ctx.setState .kDisconnecting).shutDownInLoop := by
      simp [ConnContext.shutdownHere, ConnContext.shutdown, hstate]
    rw [hhere]
    have hds := h.streaming.of_state .kDisconnecting
    by_cases hwr : (s.ctx.setState .kDisconnecting).isWriting = true
    · have heq : (s.ctx.setState .kDisconnecting).shutDownInLoop =
          s.ctx.setState .kDisconnecting := by simp [ConnContext.shutDownInLoop, hwr]
      rw [heq]
      refine ⟨hds, h.stream, hacc, ?_, fun _ => ⟨rfl, fun _ => hzero, ?_⟩⟩
      · intro hno
        rw [any_isShutdown_snoc] at hno
        simp [OutputCall.isShutdown] at hno
      · exact Nat.le_trans (Nat.le_of_eq hzero) (Nat.zero_le 1)
    · have hidle : (s.ctx.setState .kDisconnecting).isWriting = false := by simpa using hwr
      have heq : (s.ctx.setState .kDisconnecting).shutDownInLoop =
          { s.ctx.setState .kDisconnecting with
            sock := { s.ctx.sock with shutWrCalls := s.ctx.sock.shutWrCalls + 1 } } := by
        simp only [ConnContext.shutDownInLoop, hidle]
        rfl
      rw [heq]
      refine ⟨hds.of_sock _, h.stream, hacc, ?_, fun _ => ⟨rfl, fun hw => absurd hw hwr, ?_⟩⟩
      · intro hno
        rw [any_isShutdown_snoc] at hno
        simp [OutputCall.isShutdown] at hno
      · change s.ctx.sock.shutWrCalls + 1 ≤ 1
        rw [hzero]
  | true =>
    obtain ⟨hdisc, hdown⟩ := h.down htr
    have hhere : s.ctx.shutdownHere = s.ctx.setState .kDisconnecting := by
      simp [ConnContext.shutdownHere, ConnContext.shutdown, hdisc]
    rw [hhere]
    refine ⟨h.streaming.of_state _, h.stream, hacc, ?_, fun _ => ⟨rfl, hdown⟩⟩
    intro hno
    rw [any_isShutdown_snoc] at hno
    simp [OutputCall.isShutdown] at hno

/-- Every admissible call keeps the invariant, and returns unless the output
    buffer would have to outgrow `max_size()`. -/
theorem step_spec {tr : List OutputCall} {s : OutputState} (h : Inv tr s) {c : OutputCall}
    (hc : s.Admissible c) :
    ReturnsUnless (maxSize < s.ctx.conn.outputBuffer.writerIndex + c.payload.length) (s.next c)
      fun t => Inv (tr ++ [c]) t := by
  cases c with
  | send data r => exact send_step h rfl rfl rfl hc.1 hc.2.1 hc.2.2
  | sendBuffer buf r =>
    obtain ⟨hv, hlen, hfit, hopen⟩ := hc
    rw [← hv.length_readable] at hlen hfit
    exact send_step h (run_sendBuffer s buf r) rfl rfl hlen hfit hopen
  | handleWrite r =>
    obtain ⟨t, ht, hinv⟩ := handleWrite_step h r
    exact Or.inl ⟨t, ht, hinv⟩
  | shutdown =>
    obtain ⟨t, ht, hinv⟩ := shutdown_step h
    exact Or.inl ⟨t, ht, hinv⟩

theorem run_inv {s₀ s : OutputState} {tr : List OutputCall} (h₀ : system.init s₀)
    (h : system.Run s₀ tr s) : Inv tr s := by
  refine h.trace_invariant (init_inv h₀) ?_
  intro tr t c u hinv hstep
  exact (step_spec hinv hstep.1).of_eq_ok hstep.2

/-- **Output stream integrity.** In every run of an established connection the
    bytes written and the bytes waiting are together the payloads of the sends
    made while it was connected, in call order; these are the sends made before
    the first `shutdown()`. The write interest holds exactly while bytes wait.
    `SHUT_WR` is issued at most once, after `shutdown()`, with nothing left to
    write. And no call fails, but for a buffer that would outgrow `max_size()`. -/
theorem output_stream_integrity {s₀ s : OutputState} {tr : List OutputCall}
    (h₀ : system.init s₀) (h : system.Run s₀ tr s) :
    s.ctx.sock.written ++ s.ctx.conn.outputBuffer.readable = s.accepted ∧
      s.accepted = OutputCall.sentBeforeShutdown tr ∧
      (s.ctx.isWriting = true ↔ s.ctx.conn.outputBuffer.readableBytes ≠ 0) ∧
      s.ctx.sock.shutWrCalls ≤ 1 ∧
      (s.ctx.sock.shutWrCalls ≠ 0 →
        tr.any OutputCall.isShutdown = true ∧ s.ctx.sock.written = s.accepted) ∧
      ∀ c, s.Admissible c →
        ReturnsUnless (maxSize < s.ctx.conn.outputBuffer.writerIndex + c.payload.length)
          (s.next c) fun _ => True := by
  have hinv := run_inv h₀ h
  have hempty := hinv.streaming.readableBytes_eq_zero_iff
  refine ⟨hinv.stream, hinv.accepted, ?_, ?_, ?_, ?_⟩
  · rw [hinv.streaming.writing_iff, Ne, Ne, hempty]
  · cases htr : tr.any OutputCall.isShutdown with
    | false => rw [(hinv.up htr).2]; exact Nat.zero_le 1
    | true => exact (hinv.down htr).2.2
  · intro hne
    cases htr : tr.any OutputCall.isShutdown with
    | false => exact absurd (hinv.up htr).2 hne
    | true =>
      refine ⟨rfl, ?_⟩
      have hidle : ¬s.ctx.isWriting = true := fun hw => hne ((hinv.down htr).2.1 hw)
      have hnil : s.ctx.conn.outputBuffer.readable = [] := by
        by_contra hsome
        exact hidle (hinv.streaming.writing_iff.mpr hsome)
      have hstream := hinv.stream
      rwa [ConnContext.stream, hnil, List.append_nil] at hstream
  · intro c hc
    exact (step_spec hinv hc).imp id fun _ _ => trivial

/-- A connection on descriptor 7 right after `connect_established`. -/
def sample : OutputState where
  ctx := ((⟨TcpConnection.new 0 7, Poller.empty, Socket.new⟩ : ConnContext).setState
    .kConnected).withEvents
      { channels := Function.update Poller.empty.channels 7 (some 0)
        interest := Function.update Poller.empty.interest 7 (some (kReadEvent, 0))
        failures := 0 } kReadEvent
  accepted := []

instance (s : OutputState) (c : OutputCall) : Decidable (s.Admissible c) :=
  match c with
  | .send _ _ | .sendBuffer _ _ | .handleWrite _ => inferInstanceAs (Decidable (_ ∧ _))
  | .shutdown => .isTrue trivial

/-- Two of three bytes wait while `shutdown()` is called, and `handle_write` closes behind them. -/
theorem output_stream_integrity_sample :
    ∃ s t, system.Run sample [.send [1, 2, 3] (.wrote 1), .shutdown] s ∧
      s.ctx.sock = ⟨[1], 1, 0⟩ ∧ s.ctx.conn.outputBuffer.readable = [2, 3] ∧
      s.ctx.sock.written ++ s.ctx.conn.outputBuffer.readable = s.accepted ∧
      system.Run s [.handleWrite (.wrote 2)] t ∧ t.ctx.sock = ⟨[1, 2, 3], 2, 1⟩ ∧
      t.ctx.sock.written = t.accepted := by
  have h₀ : system.init sample := ⟨rfl, 0, 7, Poller.empty, ⟨rfl, rfl⟩, rfl⟩
  let next := fun (s : OutputState) c => (s.next c).toOption
  have hval : (Transition.System.follow Admissible next sample
      [.send [1, 2, 3] (.wrote 1), .shutdown]).bind (fun s =>
        (Transition.System.follow Admissible next s [.handleWrite (.wrote 2)]).map fun t =>
          (s.ctx.sock, s.ctx.conn.outputBuffer.readable, t.ctx.sock)) =
      some (⟨[1], 1, 0⟩, [2, 3], ⟨[1, 2, 3], 2, 1⟩) := by
    decide +kernel
  obtain ⟨s, hs, hrest⟩ := Option.bind_eq_some_iff.mp hval
  obtain ⟨t, ht, heq⟩ := Option.map_eq_some_iff.mp hrest
  simp only [Prod.mk.injEq] at heq
  obtain ⟨hwaiting, hreadable, hclosed⟩ := heq
  have hstep : ∀ u c v, Admissible u c → next u c = some v → system.step u c v :=
    fun _ _ _ hc hnext => ⟨hc, eq_ok_of_toOption hnext⟩
  have hrun : system.Run sample _ s := .of_follow hstep hs
  have hmore : system.Run s _ t := .of_follow hstep ht
  have hend := output_stream_integrity h₀ (hrun.append hmore)
  exact ⟨s, t, hrun, hwaiting, hreadable, (output_stream_integrity h₀ hrun).1, hmore, hclosed,
    (hend.2.2.2.2.1 (by rw [hclosed]; decide)).2⟩

end OutputState

end DamnWebServer
