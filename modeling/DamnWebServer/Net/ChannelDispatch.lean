import DamnWebServer.Net.ServerLife

/-!
# One dispatch of a connection's channel

`Channel::handle_event` as a whole, with the handlers of the connection and the user
code they call. `handle_close` is called from two places: on a hang-up without
`POLLIN`, and by a read that finds the end of the stream. `POLLPRI` and `POLLRDHUP`
lead to a read as well, so that one dispatch can come to both.

The handlers run in the loop's thread, one after the other; a failure ends them. What
`remove_connection` does is left to the server, here its calls are counted.
-/

namespace DamnWebServer

/-- What comes to one call of `handle_event` from outside. -/
structure Dispatch where
  revents : PollMask
  readv : ReadvResult
  write : WriteResult
  /-- The calls that `message_callback_` makes. -/
  message : List UserCall
  /-- The calls that `connection_callback_` makes in the `n`-th `handle_close`. -/
  down : Nat → List UserCall
  /-- It is not given the input buffer. -/
  down_input : ∀ n, ∀ u ∈ down n, ∀ buf, u ≠ .useInput buf

/-- A hang-up that closes, and behind it a read that finds the end of the stream. -/
def Dispatch.ClosesTwice (d : Dispatch) : Prop :=
  (d.revents.pollhup = true ∧ d.revents.pollin = false) ∧
    (d.revents.pollpri = true ∨ d.revents.pollrdhup = true) ∧ d.readv = .delivered []

/-- A connection between its handlers. -/
structure Dispatched where
  ctx : ConnContext
  /-- The calls of `handle_close`. -/
  closes : Nat
  /-- The calls of `close_callback_`, that is, of `remove_connection`. -/
  removes : Nat
  /-- What ended the handlers. -/
  fault : Option Fault

namespace Dispatched

def start (x : ConnContext) : Dispatched := ⟨x, 0, 0, none⟩

/-- Some code of a handler, unless a failure has ended them. -/
def attempt (s : Dispatched) (code : ConnContext → Except Fault ConnContext) : Dispatched :=
  if s.fault = none then
    match code s.ctx with
    | .ok x => { s with ctx := x }
    | .error f => { s with fault := some f }
  else s

/-- The calls of a callback of the user. -/
def userCode (s : Dispatched) (calls : List UserCall) : Dispatched :=
  calls.foldl (fun s u => s.attempt fun x => u.apply x) s

/-- `handle_close`, with `connection_callback_` and `close_callback_`. -/
def handleClose (s : Dispatched) (d : Dispatch) : Dispatched :=
  if s.fault = none then
    let s := { s with closes := s.closes + 1 }
    let s := s.attempt ConnContext.handleClose
    let s := s.userCode (d.down s.closes)
    if s.fault = none then { s with removes := s.removes + 1 } else s
  else s

/-- `handle_read`, with `message_callback_` or `handle_close`. -/
def handleRead (s : Dispatched) (d : Dispatch) : Dispatched :=
  if s.fault = none then
    match s.ctx.handleRead d.readv with
    | .ok (x, .message) => { s with ctx := x }.userCode d.message
    | .ok (x, .close) => { s with ctx := x }.handleClose d
    | .ok (x, .error) => { s with ctx := x }
    | .error f => { s with fault := some f }
  else s

/-- A callback of the channel; `handle_error` only prints. -/
def callback (d : Dispatch) (s : Dispatched) : ChannelCallback → Dispatched
  | .close => s.handleClose d
  | .error => s
  | .read => s.handleRead d
  | .write => s.attempt fun x => x.handleWrite d.write

/-- `Channel::handle_event`. -/
def handleEvent (s : Dispatched) (d : Dispatch) : Dispatched :=
  (Channel.handleEvent d.revents).foldl (callback d) s

/-- The hang-up, the read and the writable event, in this order. -/
theorem handleEvent_eq (s : Dispatched) (d : Dispatch) :
    s.handleEvent d =
      let closed := if (d.revents.pollhup && !d.revents.pollin) = true then s.handleClose d else s
      let read := if (d.revents.pollin || d.revents.pollpri || d.revents.pollrdhup) = true then
        closed.handleRead d else closed
      if d.revents.pollout = true then read.attempt fun x => x.handleWrite d.write else read := by
  have hif : ∀ (b : Bool) (k : ChannelCallback) (s : Dispatched),
      (if b = true then [k] else []).foldl (callback d) s = if b = true then callback d s k else s := by
    intro b k s
    cases b <;> rfl
  simp only [handleEvent, Channel.handleEvent, List.foldl_append, hif, callback, ite_self]

-- ════════════════════════════════════════════════════════════════════════
-- The counts
-- ════════════════════════════════════════════════════════════════════════

variable {s : Dispatched} {d : Dispatch} {code : ConnContext → Except Fault ConnContext}

@[simp] theorem attempt_closes (s : Dispatched) (code : ConnContext → Except Fault ConnContext) :
    (s.attempt code).closes = s.closes := by
  unfold attempt
  split
  · split <;> rfl
  · rfl

@[simp] theorem attempt_removes (s : Dispatched) (code : ConnContext → Except Fault ConnContext) :
    (s.attempt code).removes = s.removes := by
  unfold attempt
  split
  · split <;> rfl
  · rfl

@[simp] theorem userCode_closes (s : Dispatched) (calls : List UserCall) :
    (s.userCode calls).closes = s.closes := by
  induction calls generalizing s with
  | nil => rfl
  | cons u calls ih => exact (ih _).trans (attempt_closes s _)

@[simp] theorem userCode_removes (s : Dispatched) (calls : List UserCall) :
    (s.userCode calls).removes = s.removes := by
  induction calls generalizing s with
  | nil => rfl
  | cons u calls ih => exact (ih _).trans (attempt_removes s _)

theorem handleClose_closes (hfault : s.fault = none) (d : Dispatch) :
    (s.handleClose d).closes = s.closes + 1 := by
  rw [handleClose, if_pos hfault]
  dsimp only
  split
  · exact (userCode_closes _ _).trans (attempt_closes _ _)
  · exact (userCode_closes _ _).trans (attempt_closes _ _)

theorem callback_closes_le (d : Dispatch) (s : Dispatched) (k : ChannelCallback) :
    s.closes ≤ (callback d s k).closes := by
  have hclose : ∀ s : Dispatched, s.closes ≤ (s.handleClose d).closes := by
    intro s
    by_cases hfault : s.fault = none
    · rw [handleClose_closes hfault]
      exact Nat.le_succ _
    · rw [handleClose, if_neg hfault]
  cases k with
  | close => exact hclose s
  | error => exact Nat.le_refl _
  | write => exact (attempt_closes s _).ge
  | read =>
    change s.closes ≤ (s.handleRead d).closes
    unfold handleRead
    split
    · split
      · next x _ => exact (userCode_closes { s with ctx := x } d.message).ge
      · next x _ => exact hclose { s with ctx := x }
      · exact Nat.le_refl _
      · exact Nat.le_refl _
    · exact Nat.le_refl _

theorem handleEvent_closes_le (s : Dispatched) (d : Dispatch) : s.closes ≤ (s.handleEvent d).closes := by
  unfold handleEvent
  induction Channel.handleEvent d.revents generalizing s with
  | nil => exact Nat.le_refl _
  | cons k ks ih => exact (callback_closes_le d s k).trans (ih _)

-- ════════════════════════════════════════════════════════════════════════
-- A connection that is closed
-- ════════════════════════════════════════════════════════════════════════

theorem attempt_of_ok (h : s.fault = none) {x : ConnContext} (hx : code s.ctx = .ok x) :
    s.attempt code = { s with ctx := x } := by
  rw [attempt, if_pos h, hx]

/-- User code on a connection that is not connected: `shutdown()` sets the state, and
    nothing else is done but what the user does to the input buffer. -/
theorem userCall_quiet {x : ConnContext} (u : UserCall) (hstate : x.conn.state ≠ .kConnected) :
    ∃ y, u.apply x = .ok y ∧ (y.conn.state = x.conn.state ∨ y.conn.state = .kDisconnecting) ∧
      y.conn.channel = x.conn.channel ∧ y.poller = x.poller ∧
      ((∀ buf, u ≠ .useInput buf) → y.conn.inputBuffer = x.conn.inputBuffer) := by
  have hsend : ∀ data r, x.sendHere data r = .ok x := by
    intro data r
    rw [ConnContext.sendHere, ConnContext.send, if_neg hstate]
  cases u with
  | send message r => exact ⟨x, hsend message r, .inl rfl, rfl, rfl, fun _ => rfl⟩
  | sendBuffer buf r =>
    refine ⟨x, ?_, .inl rfl, rfl, rfl, fun _ => rfl⟩
    exact (ServerState.sendBufferHere_eq x buf r).trans (hsend buf.readable r)
  | shutdown =>
    have hshut : x.shutdownHere = x.setState .kDisconnecting := by
      rw [ConnContext.shutdownHere, ConnContext.shutdown, if_neg hstate]
    exact ⟨_, congrArg Except.ok hshut, .inr rfl, rfl, rfl, fun _ => rfl⟩
  | useInput buf => exact ⟨_, rfl, .inl rfl, rfl, rfl, fun hne => absurd rfl (hne buf)⟩

/-- The connection is closed and its channel taken off the poller. -/
structure Closed (x : ConnContext) : Prop where
  tracks : x.poller.Tracks x.conn.channel
  down : x.conn.Down .kDeleted

/-- User code finds a closed connection closed, and returns. -/
theorem Closed.userCall {x : ConnContext} (h : Closed x) (u : UserCall) :
    ∃ y, u.apply x = .ok y ∧ Closed y ∧
      ((∀ buf, u ≠ .useInput buf) → y.conn.inputBuffer = x.conn.inputBuffer) := by
  have hstate : x.conn.state ≠ .kConnected := by
    intro hstate
    rcases h.down.1 with hdown | hdown <;> rw [hdown] at hstate <;> cases hstate
  obtain ⟨y, hy, hafter, hchannel, hpoller, hinput⟩ := userCall_quiet u hstate
  refine ⟨y, hy, ⟨?_, ?_, ?_⟩, hinput⟩
  · rw [hchannel, hpoller]
    exact h.tracks
  · rcases hafter with hafter | hafter
    · rw [hafter]
      exact h.down.1
    · exact .inr hafter
  · rw [hchannel]
    exact h.down.2

theorem Closed.userCode (hfault : s.fault = none) (h : Closed s.ctx) {calls : List UserCall}
    (hcalls : ∀ u ∈ calls, ∀ buf, u ≠ .useInput buf) :
    (s.userCode calls).fault = none ∧ Closed (s.userCode calls).ctx ∧
      (s.userCode calls).ctx.conn.inputBuffer = s.ctx.conn.inputBuffer := by
  induction calls generalizing s with
  | nil => exact ⟨hfault, h, rfl⟩
  | cons u calls ih =>
    obtain ⟨y, hy, hclosed, hinput⟩ := h.userCall u
    have hstep : s.attempt (fun x => u.apply x) = { s with ctx := y } := attempt_of_ok hfault hy
    obtain ⟨hgoes, hafter, hbuffer⟩ := ih (s := { s with ctx := y }) hfault hclosed
      fun v hv => hcalls v (List.mem_cons_of_mem u hv)
    rw [Dispatched.userCode, List.foldl_cons, hstep]
    exact ⟨hgoes, hafter, hbuffer.trans (hinput (hcalls u List.mem_cons_self))⟩

/-- The connection is connected or disconnecting, and its channel is registered. -/
structure Registered (x : ConnContext) : Prop where
  state : x.conn.state = .kConnected ∨ x.conn.state = .kDisconnecting
  index : x.conn.channel.index = .kAdded

/-- `handle_close` past the poller: the callbacks are called. -/
theorem handleClose_of_closed (hfault : s.fault = none) {x : ConnContext}
    (hok : s.ctx.handleClose = .ok x) (hclosed : Closed x) (d : Dispatch) :
    (s.handleClose d).fault = none ∧ (s.handleClose d).removes = s.removes + 1 ∧
      Closed (s.handleClose d).ctx ∧
      (s.handleClose d).ctx.conn.inputBuffer = x.conn.inputBuffer := by
  let down : Dispatched := { s with closes := s.closes + 1, ctx := x }
  have hstep : Dispatched.attempt { s with closes := s.closes + 1 } ConnContext.handleClose = down :=
    attempt_of_ok (s := { s with closes := s.closes + 1 }) hfault hok
  obtain ⟨hgoes, hafter, hinput⟩ :=
    Closed.userCode (s := down) hfault hclosed (d.down_input down.closes)
  have hwhole : s.handleClose d =
      { down.userCode (d.down down.closes) with removes := s.removes + 1 } := by
    rw [handleClose, if_pos hfault]
    simp only [hstep, hgoes, if_true, userCode_removes]
    rfl
  rw [hwhole]
  exact ⟨hgoes, rfl, hafter, hinput⟩

/-- **The first close** goes through, whatever the user does in between. -/
theorem handleClose_registered (hfault : s.fault = none) (h : Registered s.ctx)
    (htracks : s.ctx.poller.Tracks s.ctx.conn.channel) (d : Dispatch) :
    (s.handleClose d).fault = none ∧ (s.handleClose d).removes = s.removes + 1 ∧
      Closed (s.handleClose d).ctx ∧
      (s.handleClose d).ctx.conn.inputBuffer = s.ctx.conn.inputBuffer := by
  obtain ⟨p, hok, htracks, _⟩ := ConnContext.handleClose_spec htracks h.state
  have hindex : Poller.nextIndex s.ctx.conn.channel.index kNoneEvent = .kDeleted := by
    rw [h.index]
    rfl
  exact handleClose_of_closed hfault hok ⟨htracks, .inl rfl, rfl, hindex⟩ d

-- ════════════════════════════════════════════════════════════════════════
-- What the handlers keep
-- ════════════════════════════════════════════════════════════════════════

/-- The connection has been closed once at most, and no assertion has failed. -/
structure Orderly (s : Dispatched) : Prop where
  passed : ∀ a, s.fault ≠ some (.assertion a)
  closes : s.closes ≤ 1
  removes : s.removes ≤ s.closes
  tracks : s.fault = none → s.ctx.poller.Tracks s.ctx.conn.channel
  closed : s.closes = 1 → s.fault = none → Closed s.ctx

/-- Code that keeps the poller's bookkeeping, and a closed connection closed. -/
def Behaves (x : ConnContext) (r : Except Fault ConnContext) : Prop :=
  Passes r fun y => y.poller.Tracks y.conn.channel ∧ (Closed x → Closed y)

theorem Orderly.goOn (h : s.Orderly) (hfault : s.fault = none) {x : ConnContext}
    (htracks : x.poller.Tracks x.conn.channel) (hclosed : Closed s.ctx → Closed x) :
    ({ s with ctx := x } : Dispatched).Orderly :=
  ⟨h.passed, h.closes, h.removes, fun _ => htracks, fun hone _ => hclosed (h.closed hone hfault)⟩

theorem Orderly.fail (h : s.Orderly) {f : Fault} (hf : ∀ a, f ≠ .assertion a) :
    ({ s with fault := some f } : Dispatched).Orderly :=
  ⟨fun a heq => hf a (Option.some.inj heq), h.closes, h.removes, nofun, nofun⟩

theorem Orderly.attempt (h : s.Orderly)
    (hcode : s.fault = none → Behaves s.ctx (code s.ctx)) : (s.attempt code).Orderly := by
  unfold Dispatched.attempt
  split
  · next hfault =>
    have hpasses := hcode hfault
    split
    · next x hx =>
      rw [hx] at hpasses
      exact h.goOn hfault hpasses.1 hpasses.2
    · next f hf =>
      rw [hf] at hpasses
      exact h.fail hpasses
  · exact h

theorem userCall_behaves (u : UserCall) {x : ConnContext} (h : x.poller.Tracks x.conn.channel) :
    Behaves x (u.apply x) := by
  have hserves := ServerState.userCall_serves u h
  cases hy : u.apply x with
  | error f =>
    rw [hy] at hserves
    exact hserves
  | ok y =>
    rw [hy] at hserves
    refine ⟨hserves.tracks, fun hclosed => ?_⟩
    obtain ⟨z, hz, hafter, _⟩ := hclosed.userCall u
    rw [Except.ok.inj (hy.symm.trans hz)]
    exact hafter

theorem handleWrite_behaves (r : WriteResult) {x : ConnContext}
    (h : x.poller.Tracks x.conn.channel) : Behaves x (x.handleWrite r) := by
  by_cases hnone : x.conn.channel.events = kNoneEvent
  · rw [ConnContext.handleWrite_of_none r hnone]
    exact ⟨h, id⟩
  · exact (ConnContext.handleWrite_keeps r h).imp fun y hk =>
      ⟨hk.tracks, fun hclosed => absurd hclosed.down.2.1 hnone⟩

theorem Orderly.userCode (h : s.Orderly) (calls : List UserCall) : (s.userCode calls).Orderly := by
  induction calls generalizing s with
  | nil => exact h
  | cons u calls ih => exact ih (h.attempt fun hfault => userCall_behaves u (h.tracks hfault))

theorem Orderly.handleWrite (h : s.Orderly) (r : WriteResult) :
    (s.attempt fun x => x.handleWrite r).Orderly :=
  h.attempt fun hfault => handleWrite_behaves r (h.tracks hfault)

theorem Orderly.handleClose (h : s.Orderly) (hfault : s.fault = none) (hfirst : s.closes = 0)
    (hready : Registered s.ctx) (d : Dispatch) : (s.handleClose d).Orderly := by
  have hcloses := handleClose_closes hfault d
  obtain ⟨hgoes, hremoves, hclosed, _⟩ :=
    handleClose_registered hfault hready (h.tracks hfault) d
  have hbefore := h.removes
  refine ⟨?_, ?_, ?_, fun _ => hclosed.tracks, fun _ _ => hclosed⟩
  · rw [hgoes]
    exact nofun
  · rw [hcloses, hfirst]
  · rw [hcloses, hremoves]
    exact Nat.succ_le_succ hbefore

/-- The `n` of `read_fd` is the number of bytes that `readv` has delivered. -/
theorem readFd_count {b : Buffer} {data : List Byte} {res : Buffer × Int × Option Errno}
    (h : b.readFd (.delivered data) = .ok res) : res.2.1 = data.length := by
  obtain ⟨c, _, hrest⟩ := bind_eq_ok h
  dsimp only at hrest
  split at hrest
  · cases hrest
    rfl
  · obtain ⟨c', _, hend⟩ := bind_eq_ok hrest
    cases hend
    rfl

/-- Only the end of the stream makes `handle_read` close. -/
theorem handleRead_close {x y : ConnContext} {r : ReadvResult}
    (h : x.handleRead r = .ok (y, .close)) : r = .delivered [] := by
  obtain ⟨res, hres, hend⟩ := bind_eq_ok h
  have hnext := (Prod.mk.inj (Except.ok.inj hend)).2
  cases r with
  | error e =>
    cases hres
    cases hnext
  | delivered data =>
    rw [readFd_count hres] at hnext
    cases data with
    | nil => rfl
    | cons byte rest =>
      have hsome : ((byte :: rest).length : Int) > 0 := Int.natCast_pos.mpr (Nat.succ_pos _)
      rw [if_pos hsome] at hnext
      cases hnext

/-- At the end of the stream `handle_read` goes on to `handle_close`. -/
theorem handleRead_end {x : ConnContext} (h : x.conn.inputBuffer.Valid) :
    ∃ y, x.handleRead (.delivered []) = .ok (y, .close) := by
  have hroom : x.conn.inputBuffer.writerIndex + (List.take x.conn.inputBuffer.writableBytes
      ([] : List Byte)).length ≤ x.conn.inputBuffer.buffer.length := by
    rw [List.take_nil]
    exact h.writer_le
  obtain ⟨b, hok, _⟩ := Buffer.copyTo_writer h hroom
  rw [ConnContext.handleRead, Buffer.readFd, hok]
  exact ⟨_, rfl⟩

theorem Orderly.handleRead (h : s.Orderly) (d : Dispatch)
    (hend : s.fault = none → d.readv = .delivered [] → s.closes = 0 ∧ Registered s.ctx) :
    (s.handleRead d).Orderly := by
  unfold Dispatched.handleRead
  split
  · next hfault =>
    have hkeeps := ConnContext.handleRead_keeps d.readv (h.tracks hfault)
    -- the read changes the input buffer only
    have hread : ∀ x n, s.ctx.handleRead d.readv = .ok (x, n) →
        ({ s with ctx := x } : Dispatched).Orderly ∧ (Registered s.ctx → Registered x) := by
      intro x n hx
      rw [hx] at hkeeps
      obtain ⟨hk, _, hchannel⟩ := hkeeps
      refine ⟨h.goOn hfault hk.tracks fun hclosed => ⟨hk.tracks, ?_, ?_⟩, fun hready => ⟨?_, ?_⟩⟩
      · rw [hk.state]
        exact hclosed.down.1
      · rw [hchannel]
        exact hclosed.down.2
      · rw [hk.state]
        exact hready.state
      · rw [hchannel]
        exact hready.index
    split
    · next x hx => exact (hread x _ hx).1.userCode d.message
    · next x hx =>
      obtain ⟨hfirst, hready⟩ := hend hfault (handleRead_close hx)
      exact (hread x _ hx).1.handleClose hfault hfirst ((hread x _ hx).2 hready) d
    · next x hx => exact (hread x _ hx).1
    · next f hf =>
      rw [hf] at hkeeps
      exact h.fail hkeeps
  · exact h

-- ════════════════════════════════════════════════════════════════════════
-- One dispatch
-- ════════════════════════════════════════════════════════════════════════

/-- Without a second close behind the first, a dispatch is orderly. -/
theorem Orderly.handleEvent (h : s.Orderly) (hfault : s.fault = none) (hready : Registered s.ctx)
    (hfirst : s.closes = 0) (honce : ¬d.ClosesTwice) : (s.handleEvent d).Orderly := by
  have hwrite : ∀ s : Dispatched, s.Orderly → (if d.revents.pollout = true then
      s.attempt fun x => x.handleWrite d.write else s).Orderly := by
    intro s hs
    split
    · exact hs.handleWrite d.write
    · exact hs
  rw [handleEvent_eq]
  refine hwrite _ ?_
  by_cases hhup : (d.revents.pollhup && !d.revents.pollin) = true
  · rw [if_pos hhup]
    have hclosed := h.handleClose hfault hfirst hready d
    split
    · next hread =>
      refine hclosed.handleRead d fun _ hend => absurd ⟨?_, ?_, hend⟩ honce
      · simpa using hhup
      · simp only [Bool.and_eq_true, Bool.not_eq_true'] at hhup
        simpa [hhup.2] using hread
    · exact hclosed
  · rw [if_neg hhup]
    split
    · exact h.handleRead d fun _ _ => ⟨hfirst, hready⟩
    · exact h

/-- A hang-up with a read of the end of the stream behind it calls `handle_close` twice. -/
theorem handleEvent_twice (hfault : s.fault = none) (hready : Registered s.ctx)
    (htracks : s.ctx.poller.Tracks s.ctx.conn.channel) (hinput : s.ctx.conn.inputBuffer.Valid)
    (htwice : d.ClosesTwice) : (s.handleEvent d).closes = s.closes + 2 := by
  obtain ⟨⟨hhup, hin⟩, hpri, hend⟩ := htwice
  obtain ⟨hgoes, _, _, hbuffer⟩ := handleClose_registered hfault hready htracks d
  have hfirst := handleClose_closes hfault d
  rw [← hbuffer] at hinput
  obtain ⟨x, hx⟩ := handleRead_end hinput
  have hsecond : ((s.handleClose d).handleRead d).closes = s.closes + 2 := by
    rw [handleRead, if_pos hgoes, hend, hx]
    have hagain := handleClose_closes (s := { s.handleClose d with ctx := x }) hgoes d
    rw [hfirst] at hagain
    exact hagain
  have hclose : (d.revents.pollhup && !d.revents.pollin) = true := by
    rw [hhup, hin]
    rfl
  have hread : (d.revents.pollin || d.revents.pollpri || d.revents.pollrdhup) = true := by
    simpa [hin] using hpri
  rw [handleEvent_eq]
  simp only [hclose, hread, if_true]
  split
  · rw [attempt_closes]
    exact hsecond
  · exact hsecond

/-- What a connection should be like: closed and removed once at most, with every
    assertion passed. -/
def ClosesOnce (s : Dispatched) : Prop :=
  s.closes ≤ 1 ∧ s.removes ≤ 1 ∧ ∀ a, s.fault ≠ some (.assertion a)

theorem Orderly.closesOnce (h : s.Orderly) : s.ClosesOnce :=
  ⟨h.closes, h.removes.trans h.closes, h.passed⟩

theorem start_orderly {x : ConnContext} (h : x.poller.Tracks x.conn.channel) : (start x).Orderly :=
  ⟨nofun, Nat.zero_le 1, Nat.le_refl 0, fun _ => h, nofun⟩

-- ════════════════════════════════════════════════════════════════════════
-- Runs
-- ════════════════════════════════════════════════════════════════════════

end Dispatched

/-- What the loop does with a connection: its channel is dispatched, or user code runs
    in between. -/
inductive DispatchStep where
  | handleEvent (d : Dispatch)
  | call (u : UserCall)

/-- The step is not a dispatch that closes twice. -/
def DispatchStep.Once : DispatchStep → Prop
  | .handleEvent d => ¬d.ClosesTwice
  | .call _ => True

namespace Dispatched

variable {s t : Dispatched} {l : DispatchStep}

/-- The poller reports registered channels, of connections that are connected or
    disconnecting. -/
def Enabled (s : Dispatched) : DispatchStep → Prop
  | .handleEvent _ => s.fault = none ∧ Registered s.ctx ∧ s.ctx.conn.inputBuffer.Valid
  | .call _ => s.fault = none

def perform (s : Dispatched) : DispatchStep → Dispatched
  | .handleEvent d => s.handleEvent d
  | .call u => s.userCode [u]

def system : Transition.System Dispatched DispatchStep :=
  .guarded (fun s => ∃ x : ConnContext, x.poller.Tracks x.conn.channel ∧ s = start x) Enabled perform

/-- A connection that can be dispatched has not been closed. -/
theorem Orderly.not_closed (h : s.Orderly) (hfault : s.fault = none) (hready : Registered s.ctx) :
    s.closes = 0 := by
  by_contra hne
  have hone : s.closes = 1 := by
    have hle := h.closes
    omega
  have hdeleted := (h.closed hone hfault).down.2.2
  rw [hready.index] at hdeleted
  cases hdeleted

/-- **A step** leaves the connection orderly, or closes it a second time. -/
theorem Orderly.step (h : s.Orderly) (hstep : system.step s l t) :
    (l.Once ∧ t.Orderly) ∨ (¬l.Once ∧ 1 < t.closes) := by
  obtain ⟨henabled, rfl⟩ := hstep
  cases l with
  | call u => exact .inl ⟨trivial, h.userCode [u]⟩
  | handleEvent d =>
    obtain ⟨hfault, hready, hinput⟩ := henabled
    by_cases htwice : d.ClosesTwice
    · have hcloses := handleEvent_twice hfault hready (h.tracks hfault) hinput htwice
      refine .inr ⟨not_not_intro htwice, ?_⟩
      change 1 < (s.handleEvent d).closes
      omega
    · exact .inl ⟨htwice, h.handleEvent hfault hready (h.not_closed hfault hready) htwice⟩

theorem Orderly.step_closesOnce_iff (h : s.Orderly) (hstep : system.step s l t) :
    t.ClosesOnce ↔ l.Once := by
  rcases h.step hstep with ⟨honce, hafter⟩ | ⟨htwice, hcloses⟩
  · exact iff_of_true hafter.closesOnce honce
  · exact iff_of_false (fun hafter => absurd hafter.1 (Nat.not_le_of_lt hcloses)) htwice

theorem step_closes_le (hstep : system.step s l t) : s.closes ≤ t.closes := by
  obtain ⟨_, rfl⟩ := hstep
  cases l with
  | handleEvent d => exact handleEvent_closes_le s d
  | call u => exact (userCode_closes s [u]).ge

/-- **When a dispatch closes once.** From a registered connection a dispatch calls
    `handle_close` and `remove_connection` once at most and fails no assertion, exactly
    if no read of the end of the stream comes behind a hang-up. So in every run, with
    user code in between, exactly if all its dispatches are such. -/
theorem dispatch_closes_once_iff (x : ConnContext) (htracks : x.poller.Tracks x.conn.channel) :
    (∀ d : Dispatch, Registered x → x.conn.inputBuffer.Valid →
      (ClosesOnce ((start x).handleEvent d) ↔ ¬d.ClosesTwice)) ∧
    ∀ tr s, system.Run (start x) tr s →
      ((∀ tr₁ tr₂ u, tr = tr₁ ++ tr₂ → system.Run (start x) tr₁ u → u.ClosesOnce) ↔
        ∀ d, .handleEvent d ∈ tr → ¬d.ClosesTwice) := by
  have hstart := start_orderly htracks
  refine ⟨fun d hready hinput => ?_, fun tr s hrun => ?_⟩
  · have hstep : system.step (start x) (.handleEvent d) ((start x).handleEvent d) :=
      ⟨⟨rfl, hready, hinput⟩, rfl⟩
    exact hstart.step_closesOnce_iff hstep
  · have hdet : ∀ s l t u, system.step s l t → system.step s l u → t = u :=
      fun s l t u ht hu => ht.2.symm.trans hu.2
    -- as long as `handle_close` has been called once at most, the connection is orderly
    have hJ : ∀ s l t, (s.closes ≤ 1 → s.Orderly) → system.step s l t → t.closes ≤ 1 → t.Orderly := by
      intro s l t hs hstep hle
      rcases (hs ((step_closes_le hstep).trans hle)).step hstep with ⟨_, hafter⟩ | ⟨_, hcloses⟩
      · exact hafter
      · exact absurd hle (Nat.not_le_of_lt hcloses)
    have hI : ∀ s l t, (s.closes ≤ 1 → s.Orderly) → s.ClosesOnce → system.step s l t →
        (t.ClosesOnce ↔ l.Once) :=
      fun s l t hs honce hstep => (hs honce.1).step_closesOnce_iff hstep
    rw [Transition.System.Run.restrict_iff hdet hJ hI hstart.closesOnce (fun _ => hstart) hrun,
      hrun.restrict_labels_iff]
    constructor
    · exact fun hall d hd => hall _ hd
    · intro hall l hl
      cases l with
      | handleEvent d => exact hall d hl
      | call u => trivial

/-- A connection that waits for input. -/
def sampleContext : ConnContext where
  conn := { TcpConnection.new 8 7 with
    state := .kConnected
    channel := { addr := 8, fd := 7, events := kReadEvent, index := .kAdded } }
  poller := { Poller.empty with
    channels := Function.update Poller.empty.channels 7 (some 8)
    interest := Function.update Poller.empty.interest 7 (some (kReadEvent, 8)) }
  sock := Socket.new

theorem sampleContext_registered : Registered sampleContext := ⟨.inl rfl, rfl⟩

theorem sampleContext_tracks : sampleContext.poller.Tracks sampleContext.conn.channel := ⟨rfl, rfl⟩

/-- A hang-up alone, with a user who shuts the connection down. -/
def sampleHangUp : Dispatch where
  revents := { pollhup := true }
  readv := .delivered []
  write := .wrote 0
  message := []
  down _ := [.shutdown]
  down_input n u hu buf := by
    rw [List.mem_singleton.mp hu]
    nofun

/-- The same with urgent data: behind the hang-up there is a read. -/
def sampleUrgent : Dispatch := { sampleHangUp with revents := { pollhup := true, pollpri := true } }

/-- The hang-up closes the connection, and it stays closed. -/
theorem dispatch_closes_once_hangUp :
    ClosesOnce ((start sampleContext).handleEvent sampleHangUp) ∧
      ∀ s, system.Run (start sampleContext) [.handleEvent sampleHangUp, .call .shutdown] s →
        s.ClosesOnce := by
  have hwhole := dispatch_closes_once_iff sampleContext sampleContext_tracks
  have honce : ¬sampleHangUp.ClosesTwice := by
    rintro ⟨_, hread | hread, _⟩ <;> cases hread
  refine ⟨(hwhole.1 _ sampleContext_registered Buffer.fresh_valid).mpr honce, fun s hrun => ?_⟩
  refine (hwhole.2 _ s hrun).mpr ?_ _ [] s (List.append_nil _).symm hrun
  intro d hd
  simp only [List.mem_cons, DispatchStep.handleEvent.injEq, reduceCtorEq, List.not_mem_nil,
    or_false] at hd
  rw [hd]
  exact honce

/-- Without a `shutdown()` in between, the second `handle_close` fails its assertion; with
    one, the connection is closed and removed twice. -/
theorem dispatch_closes_twice :
    (¬∀ (x : ConnContext) (d : Dispatch), x.poller.Tracks x.conn.channel → Registered x →
        x.conn.inputBuffer.Valid → ClosesOnce ((start x).handleEvent d)) ∧
      ((start sampleContext).handleEvent
          { sampleUrgent with down := fun _ => [], down_input := by simp }).fault =
        some (.assertion "state_ == k_connected || state_ == k_disconnecting") ∧
      ((start sampleContext).handleEvent sampleUrgent).closes = 2 ∧
      ((start sampleContext).handleEvent sampleUrgent).removes = 2 ∧
      ((start sampleContext).handleEvent sampleUrgent).fault = none := by
  have hcloses : ((start sampleContext).handleEvent sampleUrgent).closes = 2 := by decide +kernel
  refine ⟨fun hall => ?_, by decide +kernel, hcloses, by decide +kernel, by decide +kernel⟩
  have honce := hall sampleContext sampleUrgent sampleContext_tracks sampleContext_registered
    Buffer.fresh_valid
  rw [ClosesOnce, hcloses] at honce
  exact absurd honce.1 (by decide)

end Dispatched

end DamnWebServer
