import DamnWebServer.Net.TcpConnection

/-!
# What the handlers leave alone

`send_in_loop`, `handle_write` and the functors change neither `state_` nor what
other descriptors of the poller are known by, a watched channel stays watched,
and no assertion fails on the way. The buffers may still refuse a payload, with
a fault that is no assertion.
-/

namespace DamnWebServer

namespace Buffer

variable {b : Buffer}

theorem resize_passes (n : Nat) : Passes (b.resize n) fun _ => True := by
  unfold resize
  split
  · trivial
  · exact nofun

theorem copyTo_passes (dest : Nat) (data : List Byte) : Passes (b.copyTo dest data) fun _ => True := by
  unfold copyTo
  split
  · trivial
  · exact nofun

theorem copyFrom_passes (first len : Nat) : Passes (b.copyFrom first len) fun _ => True := by
  unfold copyFrom
  split
  · trivial
  · exact nofun

theorem compact_passes : Passes b.compact fun _ => True := by
  refine (copyFrom_passes _ _).bind fun data _ => ?_
  split
  · exact nofun
  · exact (copyTo_passes _ _).bind fun _ _ => trivial

theorem ensureWritableBytes_passes (len : Nat) :
    Passes (b.ensureWritableBytes len) fun _ => True := by
  unfold ensureWritableBytes makeSpace
  split
  · split
    · exact resize_passes _
    · exact compact_passes
  · trivial

theorem append_passes (data : List Byte) : Passes (b.append data) fun _ => True :=
  (ensureWritableBytes_passes _).bind fun _ _ => (copyTo_passes _ _).bind fun _ _ => trivial

theorem readFd_passes (r : ReadvResult) : Passes (b.readFd r) fun _ => True := by
  cases r with
  | error e => trivial
  | delivered data =>
    refine (copyTo_passes _ _).bind fun c _ => ?_
    split
    · trivial
    · exact (append_passes _).bind fun _ _ => trivial

end Buffer

/-- The kernel watches the channel, at least for reading. -/
def Channel.Watched (ch : Channel) : Prop := ch.index = .kAdded ∧ ch.events.pollin = true

theorem Channel.Watched.nextIndex {ch : Channel} (h : ch.Watched) {events : PollMask}
    (hin : events.pollin = ch.events.pollin) : Poller.nextIndex ch.index events = .kAdded := by
  have hne : events ≠ kNoneEvent := by
    rintro rfl
    rw [h.2] at hin
    cases hin
  rw [Poller.nextIndex, if_neg fun hand => hne hand.2]

namespace ConnContext

/-- What a handler that leaves `state_` alone does to a tracked connection. -/
structure Keeps (x y : ConnContext) : Prop where
  state : y.conn.state = x.conn.state
  tracks : y.poller.Tracks y.conn.channel
  fd : y.conn.channel.fd = x.conn.channel.fd
  addr : y.conn.channel.addr = x.conn.channel.addr
  watched : x.conn.channel.Watched → y.conn.channel.Watched
  others : Poller.SameExcept x.conn.channel.fd x.poller y.poller

/-- Neither the state, nor the channel, nor the poller changes. -/
theorem Keeps.of_same {x y : ConnContext} (h : x.poller.Tracks x.conn.channel)
    (hstate : y.conn.state = x.conn.state) (hch : y.conn.channel = x.conn.channel)
    (hp : y.poller = x.poller) : x.Keeps y where
  state := hstate
  tracks := by rw [hch, hp]; exact h
  fd := by rw [hch]
  addr := by rw [hch]
  watched := by rw [hch]; exact id
  others _ _ := by rw [hp]; exact ⟨rfl, rfl⟩

theorem Keeps.refl {x : ConnContext} (h : x.poller.Tracks x.conn.channel) : x.Keeps x :=
  .of_same h rfl rfl rfl

theorem Keeps.trans {x y z : ConnContext} (h : x.Keeps y) (h' : y.Keeps z) : x.Keeps z where
  state := h'.state.trans h.state
  tracks := h'.tracks
  fd := h'.fd.trans h.fd
  addr := h'.addr.trans h.addr
  watched hx := h'.watched (h.watched hx)
  others fd hfd := by
    obtain ⟨hc, hi⟩ := h.others fd hfd
    obtain ⟨hc', hi'⟩ := h'.others fd (by rw [h.fd]; exact hfd)
    exact ⟨hc'.trans hc, hi'.trans hi⟩

/-- A change of the mask that leaves `POLLIN` alone. -/
theorem onChannel_keeps {x : ConnContext} (h : x.poller.Tracks x.conn.channel)
    (op : Poller → Channel → Except Fault (Poller × Channel)) (events : PollMask)
    (hop : op x.poller x.conn.channel = x.poller.setEvents x.conn.channel events)
    (hin : events.pollin = x.conn.channel.events.pollin) :
    Passes (x.onChannel op) fun y => x.Keeps y ∧ y.sock = x.sock := by
  obtain ⟨p, hset, htracks, hsame, _⟩ := onChannel_setEvents h op events hop
  rw [hset]
  exact ⟨⟨rfl, htracks, rfl, rfl, fun hw => ⟨hw.nextIndex hin, hin.trans hw.2⟩, hsame⟩, rfl⟩

theorem enableWriting_keeps {x : ConnContext} (h : x.poller.Tracks x.conn.channel) :
    Passes (x.onChannel Poller.enableWriting) x.Keeps :=
  (onChannel_keeps h Poller.enableWriting _ rfl (Bool.or_false _)).imp fun _ => And.left

theorem disableWriting_keeps {x : ConnContext} (h : x.poller.Tracks x.conn.channel) :
    Passes (x.onChannel Poller.disableWriting) x.Keeps :=
  (onChannel_keeps h Poller.disableWriting _ rfl (Bool.and_true _)).imp fun _ => And.left

theorem directWrite_conn (x : ConnContext) (data : List Byte) (r : WriteResult) :
    (x.directWrite data r).1.conn = x.conn ∧ (x.directWrite data r).1.poller = x.poller := by
  unfold directWrite
  split
  · cases r with
    | wrote n => exact ⟨rfl, rfl⟩
    | error e => exact ⟨rfl, rfl⟩
  · exact ⟨rfl, rfl⟩

theorem sendInLoop_keeps {x : ConnContext} (data : List Byte) (r : WriteResult)
    (h : x.poller.Tracks x.conn.channel) : Passes (x.sendInLoop data r) x.Keeps := by
  obtain ⟨hconn, hpoll⟩ := directWrite_conn x data r
  have hout : ∀ out, x.Keeps ((x.directWrite data r).1.setOutput out) := fun out =>
    .of_same h (by rw [setOutput, hconn]) (by rw [setOutput, hconn]) hpoll
  unfold sendInLoop
  split
  · exact Keeps.refl h
  · simp only
    split
    · refine (Buffer.append_passes _).bind fun out _ => ?_
      split
      · exact (enableWriting_keeps (hout out).tracks).imp fun _ hk => (hout out).trans hk
      · exact hout out
    · exact .of_same h (by rw [hconn]) (by rw [hconn]) hpoll

/-- `::shutdown` touches the socket's half-close count only. -/
theorem shutDownInLoop_eq (x : ConnContext) :
    x.shutDownInLoop.conn = x.conn ∧ x.shutDownInLoop.poller = x.poller ∧
      x.shutDownInLoop.sock.writeCalls = x.sock.writeCalls := by
  unfold shutDownInLoop
  split <;> exact ⟨rfl, rfl, rfl⟩

theorem shutDownInLoop_keeps {x : ConnContext} (h : x.poller.Tracks x.conn.channel) :
    x.Keeps x.shutDownInLoop := by
  obtain ⟨hc, hp, _⟩ := x.shutDownInLoop_eq
  exact .of_same h (by rw [hc]) (by rw [hc]) hp

theorem drained_keeps {x : ConnContext} (n : Nat) (h : x.poller.Tracks x.conn.channel) :
    Passes (x.drained n) x.Keeps := by
  have hout : x.Keeps (x.setOutput (x.conn.outputBuffer.retrieve n)) := .of_same h rfl rfl rfl
  simp only [drained]
  split
  · refine (disableWriting_keeps hout.tracks).bind fun y hy => ?_
    have hxy := hout.trans hy
    change x.Keeps (if y.conn.state = .kDisconnecting then y.shutDownInLoop else y)
    split
    · exact hxy.trans (shutDownInLoop_keeps hxy.tracks)
    · exact hxy
  · exact hout

theorem handleWrite_keeps {x : ConnContext} (r : WriteResult)
    (h : x.poller.Tracks x.conn.channel) : Passes (x.handleWrite r) x.Keeps := by
  have hsock : ∀ s, x.Keeps { x with sock := s } := fun s => .of_same h rfl rfl rfl
  unfold handleWrite
  split
  · cases r with
    | wrote n =>
      simp only
      split
      · exact (drained_keeps n (hsock _).tracks).imp fun _ hk => (hsock _).trans hk
      · exact hsock _
    | error e => exact hsock _
  · exact Keeps.refl h

theorem runFunctor_keeps {x : ConnContext} (r : WriteResult) (f : ConnFunctor)
    (h : x.poller.Tracks x.conn.channel) : Passes (x.runFunctor r f) x.Keeps := by
  cases f with
  | sendInLoop data => exact sendInLoop_keeps data r h
  | shutDownInLoop => exact shutDownInLoop_keeps h

theorem handleRead_keeps {x : ConnContext} (r : ReadvResult)
    (h : x.poller.Tracks x.conn.channel) :
    Passes (x.handleRead r) fun res => x.Keeps res.1 ∧ res.1.sock = x.sock ∧
      res.1.conn.channel = x.conn.channel :=
  (Buffer.readFd_passes r).bind fun _ _ => ⟨.of_same h rfl rfl rfl, rfl, rfl⟩

theorem not_isWriting_of_none {x : ConnContext} (h : x.conn.channel.events = kNoneEvent) :
    ¬x.isWriting = true := by
  rw [isWriting, Channel.isWriting, h]
  decide

/-- A writable event finds nothing to do on an empty mask. -/
theorem handleWrite_of_none {x : ConnContext} (r : WriteResult)
    (h : x.conn.channel.events = kNoneEvent) : x.handleWrite r = .ok x :=
  if_neg (not_isWriting_of_none h)

end ConnContext

end DamnWebServer
