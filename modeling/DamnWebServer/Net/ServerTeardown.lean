import DamnWebServer.Net.ServerSingle

/-!
# Tearing a server down

`~Tcp_Server` (`net/tcp_server.cpp`) on a server without a thread pool. The
destructor runs in the thread of `loop_`, between two handlers or inside user code,
and calls `connect_destroyed` on every connection of `connections_`; nothing else of
the loop runs meanwhile but what `connect_destroyed` itself calls.

`connect_destroyed` clears the mask of a connection that is `k_connected` and of no
other. After a `shutdown()` that the peer has not answered the connection is
`k_disconnecting`, its mask is not empty, and `channel_->remove()` fails its
assertion.
-/

namespace DamnWebServer

/-- `~Tcp_Server` on its way. -/
structure Teardown where
  server : ServerState
  /-- The connections that the loop over `connections_` has still to come to. -/
  todo : List Nat
  /-- Those on which it has called `connect_destroyed`, the last one first. -/
  begun : List Nat
  /-- The stack under the destructor. -/
  base : List ServerTask

inductive TeardownStep where
  /-- The body of the loop, for the next connection. -/
  | next
  /-- What `connect_destroyed` runs. -/
  | inner (s : ServerStep)
  deriving DecidableEq, Repr

/-- The steps of the destructor itself. User code may make any number of calls. -/
def TeardownStep.isWork : TeardownStep → Bool
  | .inner (.call _ _ _) | .inner (.userFunctor _) => false
  | .next | .inner _ => true

namespace Teardown

def stack (s : Teardown) : List ServerTask := (s.server.loops 0).stack

def perform (s : Teardown) : TeardownStep → Teardown
  | .next =>
    match s.todo with
    | [] => s
    | c :: rest =>
      -- `item.second.reset()`
      let w : ServerState := { s.server with
        connections := Function.update s.server.connections (s.server.conns c).name none }
      { s with
        server := w.runInLoop 0 (w.conns c).loop (.connectDestroyed c)
        todo := rest
        begun := c :: s.begun }
  | .inner a => { s with server := s.server.perform a }

/-- The steps of the server that can happen while its destructor runs. -/
def Inside (s : Teardown) : ServerStep → Prop
  | .run _ _ | .call _ _ _ | .userReturn _ => s.base.length < s.stack.length
  | .userFunctor _ => True
  | .poll _ _ | .next _ | .swap _ | .again _ => False

def Enabled (s : Teardown) : TeardownStep → Prop
  | .next => s.server.fault = none ∧ s.stack = s.base ∧ s.todo ≠ []
  | .inner a => s.Inside a ∧ s.server.Enabled a

/-- The destructor is called in any reachable state of a server without a pool, in
    the thread of `loop_`, which it asserts: by the owner of the loop or by user code. -/
structure Begins (s : Teardown) : Prop where
  reachable : (ServerState.system.restrict ServerState.KernelBehaves).Reachable s.server
  numThreads : s.server.numThreads = 0
  running : s.server.fault = none
  caller : ∀ t ∈ s.stack.head?, t = .userCode
  /-- `connections_`, in whatever order. -/
  nodup : s.todo.Nodup
  live : ∀ c, c ∈ s.todo ↔
    c < s.server.accepted ∧ s.server.connections (s.server.conns c).name = some c
  begun : s.begun = []
  base : s.base = s.stack

def system : Transition.System Teardown TeardownStep := .guarded Begins Enabled perform

/-- The loop is through, and the last `connect_destroyed` has returned. -/
def Finished (s : Teardown) : Prop := s.todo = [] ∧ s.stack = s.base

/-- `connect_destroyed` is called on a connection that is `k_connected` or whose mask is
    empty already, and a callback does not shut down a connection on which it has
    been called. -/
def Safe (s : Teardown) : TeardownStep → Prop
  | .next => ∀ c ∈ s.todo.head?, (s.server.conns c).conn.state = .kConnected ∨
      (s.server.conns c).conn.channel.events = kNoneEvent
  | .inner (.call _ c .shutdown) => c ∉ s.begun
  | .inner _ => True

/-- What is to be left of a connection. -/
structure Destroyed (w : ServerState) (c : Nat) : Prop where
  state : (w.conns c).conn.state = .kDisconnected
  mask : (w.conns c).conn.channel.events = kNoneEvent
  channels : (w.pollers (w.conns c).loop).channels (w.conns c).conn.channel.fd = none
  interest : (w.pollers (w.conns c).loop).interest (w.conns c).conn.channel.fd = none
  /-- The callback has told the user once that the connection is down. -/
  down_once : w.log.count (.connectionCallback c false) = 1

instance (s : Teardown) (a : TeardownStep) : Decidable (s.Enabled a) :=
  match a with
  | .next => inferInstanceAs (Decidable (_ ∧ _ ∧ _))
  | .inner (.run _ _) | .inner (.call _ _ _) | .inner (.userReturn _) =>
    inferInstanceAs (Decidable (_ < _ ∧ _))
  | .inner (.userFunctor _) => inferInstanceAs (Decidable (True ∧ _))
  | .inner (.poll _ _) | .inner (.next _) | .inner (.swap _) | .inner (.again _) =>
    inferInstanceAs (Decidable (False ∧ _))

instance (s : Teardown) (a : TeardownStep) : Decidable (s.Safe a) :=
  match a with
  | .next => inferInstanceAs (Decidable (∀ c ∈ s.todo.head?, _ ∨ _))
  | .inner (.call _ c .shutdown) => inferInstanceAs (Decidable (c ∉ s.begun))
  | .inner (.call _ _ (.send _ _)) | .inner (.call _ _ (.sendBuffer _ _))
  | .inner (.call _ _ (.useInput _)) | .inner (.run _ _) | .inner (.userReturn _)
  | .inner (.userFunctor _) | .inner (.poll _ _) | .inner (.next _) | .inner (.swap _)
  | .inner (.again _) => inferInstanceAs (Decidable True)

end Teardown

namespace ServerState

variable {w w' : ServerState} {c d l : Nat}

-- ════════════════════════════════════════════════════════════════════════
-- Where a connection stands
-- ════════════════════════════════════════════════════════════════════════

/-- How often the callback has said that the connection is down. -/
def downs (w : ServerState) (c : Nat) : Nat := w.log.count (.connectionCallback c false)

/-- `P` holds of the connection and of the number of its down callbacks. -/
def Stands (w : ServerState) (c : Nat) (P : TcpConnection → Nat → Prop) : Prop :=
  P (w.conns c).conn (w.downs c)

theorem count_history (c : Nat) (log : List ServerEvent) {e : ServerEvent} (h : e.conn = c) :
    (history c log).count e = log.count e :=
  List.count_filter (decide_eq_true h)

theorem Touches.downs (h : Touches w w' c) (hd : d ≠ c) : w'.downs d = w.downs d := by
  rw [ServerState.downs, ServerState.downs, ← count_history d w'.log rfl, h.log d hd,
    count_history d w.log rfl]

theorem Touches.stands (h : Touches w w' c) (hd : d ≠ c) {P : TcpConnection → Nat → Prop}
    (hP : w.Stands d P) : w'.Stands d P := by
  rw [Stands, h.conns d hd, h.downs hd]
  exact hP

theorem Stands.store {P : TcpConnection → Nat → Prop} (h : w.Stands c P) {x : ConnContext}
    (hP : c = d → P (w.conns c).conn (w.downs c) → P x.conn (w.downs c)) :
    (w.store d x).Stands c P := by
  by_cases hcd : c = d
  · subst hcd
    rw [Stands, store_conn_self]
    exact hP rfl h
  · rw [Stands, store_conn_of_ne w x hcd]
    exact h

/-- All connections are on `loop_`, and its poller has them in its books. -/
structure Grounded (w : ServerState) : Prop where
  numThreads : w.numThreads = 0
  loop : ∀ c, c < w.accepted → (w.conns c).loop = 0
  fds : ∀ c d, c < w.accepted → d < w.accepted →
    (w.conns c).conn.channel.fd = (w.conns d).conn.channel.fd → c = d
  tracks : ∀ c, c < w.accepted →
    (w.pollers (w.conns c).loop).Tracks (w.conns c).conn.channel

theorem Grounded.touch (h : Grounded w) (hc : c < w.accepted) (ht : Touches w w' c)
    (hnum : w'.numThreads = w.numThreads)
    (htracks : (w'.pollers (w'.conns c).loop).Tracks (w'.conns c).conn.channel) : Grounded w' := by
  have hfd : ∀ d, (w'.conns d).conn.channel.fd = (w.conns d).conn.channel.fd := by
    intro d
    by_cases hdc : d = c
    · rw [hdc, ht.fd]
    · rw [ht.conns d hdc]
  refine ⟨hnum.trans h.numThreads, fun d hd => ?_, fun d e hd he heq => ?_, fun d hd => ?_⟩
  · rw [ht.accepted] at hd
    by_cases hdc : d = c
    · rw [hdc, ht.loop]
      exact h.loop c hc
    · rw [ht.conns d hdc]
      exact h.loop d hd
  · rw [ht.accepted] at hd he
    rw [hfd, hfd] at heq
    exact h.fds d e hd he heq
  · rw [ht.accepted] at hd
    by_cases hdc : d = c
    · rw [hdc]
      exact htracks
    · have hne : (w.conns d).conn.channel.fd ≠ (w.conns c).conn.channel.fd := fun heq =>
        hdc (h.fds d c hd hc heq)
      obtain ⟨hch, hint⟩ := ht.pollers (w.conns d).loop (w.conns d).conn.channel.fd
        fun hand => hne hand.2
      rw [ht.conns d hdc]
      exact (h.tracks d hd).congr hch hint

theorem Inv.grounded (h : Inv w) (hsingle : Single w) : Grounded w where
  numThreads := hsingle.numThreads
  loop := hsingle.loop
  fds := h.fds
  tracks c hc := by
    obtain ⟨st, hat⟩ := h.stage c hc
    exact hat.has.tracks

/-- A step of `connect_destroyed`: the task leaves the stack, the connection is
    stored, and what comes next is pushed. -/
def handled (w : ServerState) (c : Nat) (rest : List ServerTask) (x : ConnContext)
    (events : List ServerEvent) (ts : List ServerTask) : ServerState :=
  (((w.setStack 0 rest).store c x).record events).push 0 ts

section Handled

variable {t : ServerTask} {rest ts : List ServerTask} {x : ConnContext} {events : List ServerEvent}

theorem handled_numThreads : (w.handled c rest x events ts).numThreads = w.numThreads := by
  simp only [handled, push, setStack, record, store, setConn, setLoop]

theorem handled_conn : (w.handled c rest x events ts).conns c =
    { w.conns c with conn := x.conn, sock := x.sock } :=
  store_conn_self (w.setStack 0 rest) c x

theorem setStack_context : (w.setStack l rest).context c = w.context c := by
  have hpollers : (w.setStack l rest).pollers = w.pollers := setLoop_pollers_same rfl
  rw [context, hpollers]
  rfl

theorem downs_handled : (w.handled c rest x events ts).downs c =
    w.downs c + events.count (.connectionCallback c false) :=
  List.count_append

theorem handled_stack (hl : (w.conns c).loop = 0) :
    ((w.handled c rest x events ts).loops 0).stack = ts ++ rest := by
  have hloop : ((w.setStack 0 rest).conns c).loop = 0 := hl
  rw [handled, push, setStack, setLoop_self, record, store, hloop, setLoop_self]
  change ts ++ ((w.setStack 0 rest).loops 0).stack = ts ++ rest
  rw [setStack, setLoop_self]

theorem handled_pollers (hl : (w.conns c).loop = 0) :
    (w.handled c rest x events ts).pollers 0 = x.poller := by
  have hloop : ((w.setStack 0 rest).conns c).loop = 0 := hl
  rw [handled, push_pollers, record_pollers, store_pollers, hloop, Function.update_self]

theorem handled_touches (hstack : (w.loops 0).stack = t :: rest)
    (howner : ∀ d, t.owner = some d → d = c)
    (hfd : x.conn.channel.fd = (w.conns c).conn.channel.fd)
    (hsame : Poller.SameExcept (w.conns c).conn.channel.fd (w.pollers (w.conns c).loop) x.poller)
    (hev : ∀ e ∈ events, e.conn = c) (hof : ∀ t ∈ ts, t.Of c) (hl : (w.conns c).loop = 0) :
    Touches w (w.handled c rest x events ts) c := by
  have hpop : Touches w (w.setStack 0 rest) c := pop_touches hstack howner
  have hsame' : Poller.SameExcept ((w.setStack 0 rest).conns c).conn.channel.fd
      ((w.setStack 0 rest).pollers ((w.setStack 0 rest).conns c).loop) x.poller := by
    have hpollers : (w.setStack 0 rest).pollers = w.pollers := setLoop_pollers_same rfl
    rw [hpollers]
    exact hsame
  have hstore := hpop.trans
    ((store_touches (w := w.setStack 0 rest) hfd hsame').trans (record_touches hev))
  refine hstore.trans (push_touches hof fun _ _ => ?_)
  rw [hstore.loop]
  exact hl

theorem handled_tracks (hl : (w.conns c).loop = 0) (h : x.poller.Tracks x.conn.channel) :
    ((w.handled c rest x events ts).pollers ((w.handled c rest x events ts).conns c).loop).Tracks
      ((w.handled c rest x events ts).conns c).conn.channel := by
  rw [handled_conn, hl, handled_pollers hl]
  exact h

end Handled

end ServerState

namespace ConnContext

theorem connectDestroyed_connected {x : ConnContext} (h : x.poller.Tracks x.conn.channel)
    (hup : x.conn.state = .kConnected) :
    ∃ p, x.connectDestroyed = .ok ((x.setState .kDisconnected).withEvents p kNoneEvent, true) ∧
      p.Tracks ((x.setState .kDisconnected).withEvents p kNoneEvent).conn.channel ∧
      Poller.SameExcept x.conn.channel.fd x.poller p := by
  obtain ⟨p, hok, htracks, hsame, _⟩ := onChannel_setEvents (x := x.setState .kDisconnected) h
    Poller.disableAll kNoneEvent rfl
  refine ⟨p, ?_, htracks, hsame⟩
  simp only [connectDestroyed]
  rw [if_pos hup, hok]
  rfl

theorem connectDestroyed_other {x : ConnContext} (hup : x.conn.state ≠ .kConnected) :
    x.connectDestroyed = .ok (x.setState .kDisconnected, false) :=
  if_neg hup

/-- After the connection is down, only `shutdown()` changes its state. -/
theorem userCall_disconnected {x y : ConnContext} {u : UserCall} (hu : u ≠ .shutdown)
    (hdown : x.conn.state = .kDisconnected) (hok : u.apply x = .ok y) :
    y.conn.state = .kDisconnected := by
  have hsend : ∀ data r, x.sendHere data r = .ok x := by
    intro data r
    rw [sendHere, send, hdown]
    rfl
  cases u with
  | send message r =>
    have hy := (hsend message r).symm.trans hok
    cases hy
    exact hdown
  | sendBuffer buf r =>
    have hsame : x.sendHere buf.readable r = .ok y := by
      rw [← ServerState.sendBufferHere_eq]
      exact hok
    cases (hsend buf.readable r).symm.trans hsame
    exact hdown
  | shutdown => exact absurd rfl hu
  | useInput buf =>
    cases hok
    exact hdown

end ConnContext

namespace TcpConnection

/-- The loop has still to come to it: it is open and no callback has said that it is
    down, or `handle_close` has seen it and called that one. -/
def Waiting (conn : TcpConnection) (downs : Nat) : Prop :=
  conn.Open ∧ downs = 0 ∨ conn.Down .kDeleted ∧ downs = 1

/-- What `connect_destroyed` can deal with. -/
def Destroyable (conn : TcpConnection) (downs : Nat) : Prop :=
  (conn.Open ∧ conn.state = .kConnected) ∧ downs = 0 ∨ conn.Down .kDeleted ∧ downs = 1

/-- Down and told so, with the given index of the channel. -/
def Told (index : ChannelIndex) (conn : TcpConnection) (downs : Nat) : Prop :=
  (conn.Down index ∧ conn.state = .kDisconnected) ∧ downs = 1

theorem Waiting.destroyable {conn : TcpConnection} {downs : Nat} (h : conn.Waiting downs)
    (hsafe : conn.state = .kConnected ∨ conn.channel.events = kNoneEvent) : conn.Destroyable downs := by
  rcases h with ⟨hopen, hzero⟩ | hdown
  · rcases hsafe with hup | hnone
    · exact Or.inl ⟨⟨hopen, hup⟩, hzero⟩
    · have hwatched := hopen.2.2
      rw [hnone] at hwatched
      cases hwatched
  · exact Or.inr hdown

end TcpConnection

namespace Teardown

open ServerState TcpConnection

variable {s t : Teardown} {w w' : ServerState} {c d : Nat} {live begun : List Nat}
  {inside : List ServerTask}

-- ════════════════════════════════════════════════════════════════════════
-- The invariant
-- ════════════════════════════════════════════════════════════════════════

/-- How far `connect_destroyed` is: the tasks over the stack of the destructor's
    caller, and the connections it has been called on. -/
inductive Phase (w : ServerState) : List ServerTask → List Nat → Prop where
  | between {begun : List Nat} : (∀ d ∈ begun, w.Stands d (Told .kNew)) → Phase w [] begun
  | called {c : Nat} {begun : List Nat} : w.Stands c Destroyable →
      (∀ d ∈ begun, w.Stands d (Told .kNew)) → Phase w [.connectDestroyed c] (c :: begun)
  | telling {c : Nat} {begun : List Nat} : w.Stands c (Told .kDeleted) →
      (∀ d ∈ begun, w.Stands d (Told .kNew)) →
      Phase w [.userCode, .channelRemove c] (c :: begun)
  | removing {c : Nat} {begun : List Nat} : w.Stands c (Told .kDeleted) →
      (∀ d ∈ begun, w.Stands d (Told .kNew)) → Phase w [.channelRemove c] (c :: begun)

/-- A phase speaks about connections and their callbacks only. -/
theorem Phase.mono (h : Phase w inside begun)
    (hstands : ∀ d P, w.Stands d P → w'.Stands d P) : Phase w' inside begun := by
  have hkeep : ∀ {begun : List Nat}, (∀ d ∈ begun, w.Stands d (Told .kNew)) →
      ∀ d ∈ begun, w'.Stands d (Told .kNew) := fun hold d hd => hstands d _ (hold d hd)
  cases h with
  | between hold => exact .between (hkeep hold)
  | called hc hold => exact .called (hstands _ _ hc) (hkeep hold)
  | telling hc hold => exact .telling (hstands _ _ hc) (hkeep hold)
  | removing hc hold => exact .removing (hstands _ _ hc) (hkeep hold)

/-- The destructor works on `live`, with the tasks `inside` over its caller's. -/
structure Inv (live : List Nat) (s : Teardown) (inside : List ServerTask) : Prop where
  grounded : s.server.Grounded
  stack : s.stack = inside ++ s.base
  asserted : ∀ a, s.server.fault ≠ some (.assertion a)
  nodup : live.Nodup
  accepted : ∀ c ∈ live, c < s.server.accepted
  members : (s.begun ++ s.todo).Perm live
  waiting : ∀ c ∈ s.todo, s.server.Stands c Waiting
  phase : Phase s.server inside s.begun

theorem Inv.todo_ne (h : Inv live s inside) (hc : c ∈ s.begun) (hd : d ∈ s.todo) : d ≠ c := by
  have hnodup := h.members.nodup_iff.mpr h.nodup
  exact ((List.nodup_append.mp hnodup).2.2 c hc d hd).symm

theorem Inv.begun_ne (h : Inv live s inside) (hbegun : s.begun = c :: begun) (hd : d ∈ begun) :
    d ≠ c := by
  have hnodup := (List.nodup_append.mp (h.members.nodup_iff.mpr h.nodup)).1
  rw [hbegun] at hnodup
  rintro rfl
  exact (List.nodup_cons.mp hnodup).1 hd

theorem Inv.begun_accepted (h : Inv live s inside) (hc : c ∈ s.begun) : c < s.server.accepted :=
  h.accepted c (h.members.subset (List.mem_append_left _ hc))

/-- The server goes on from `w` to `w'` inside `connect_destroyed` of `c`. -/
theorem Inv.touch (h : Inv live s inside) (hc : c ∈ s.begun) (ht : Touches s.server w' c)
    (hnum : w'.numThreads = s.server.numThreads)
    (htracks : (w'.pollers (w'.conns c).loop).Tracks (w'.conns c).conn.channel)
    {inside' : List ServerTask} (hstack : (w'.loops 0).stack = inside' ++ s.base)
    (hphase : Phase w' inside' s.begun) : Inv live { s with server := w' } inside' where
  grounded := h.grounded.touch (h.begun_accepted hc) ht hnum htracks
  stack := hstack
  asserted := by rw [ht.fault]; exact h.asserted
  nodup := h.nodup
  accepted := by rw [ht.accepted]; exact h.accepted
  members := h.members
  waiting d hd := ht.stands (h.todo_ne hc hd) (h.waiting d hd)
  phase := hphase

/-- A failure that is not an assertion's leaves everything else as it was. -/
theorem Inv.fail (h : Inv live s inside) {f : Fault} (hf : ∀ a, f ≠ .assertion a) :
    Inv live { s with server := { s.server with fault := some f } } inside where
  grounded := ⟨h.grounded.numThreads, h.grounded.loop, h.grounded.fds, h.grounded.tracks⟩
  stack := h.stack
  asserted a heq := hf a (Option.some.inj heq)
  nodup := h.nodup
  accepted := h.accepted
  members := h.members
  waiting := h.waiting
  phase := h.phase.mono fun _ _ hstands => hstands

-- ════════════════════════════════════════════════════════════════════════
-- The steps
-- ════════════════════════════════════════════════════════════════════════

/-- Only `loop_` is changed, and not its poller. -/
theorem Inv.setLoop (h : Inv live s inside) {inside' : List ServerTask} {loop : ServerLoop}
    (hp : loop.poller = (s.server.loops 0).poller) (hstack : loop.stack = inside' ++ s.base)
    (hphase : Phase s.server inside' s.begun) :
    Inv live { s with server := s.server.setLoop 0 loop } inside' where
  grounded := by
    refine ⟨h.grounded.numThreads, h.grounded.loop, h.grounded.fds, fun c hc => ?_⟩
    rw [setLoop_pollers_same hp]
    exact h.grounded.tracks c hc
  stack := by
    rw [Teardown.stack, setLoop_self]
    exact hstack
  asserted := h.asserted
  nodup := h.nodup
  accepted := h.accepted
  members := h.members
  waiting := h.waiting
  phase := hphase.mono fun _ _ hstands => hstands

/-- The body of the loop: `run_in_loop` runs `connect_destroyed` at once. -/
theorem Inv.next (h : Inv live s []) {rest : List Nat} (htodo : s.todo = c :: rest)
    (hsafe : (s.server.conns c).conn.state = .kConnected ∨
      (s.server.conns c).conn.channel.events = kNoneEvent) :
    Inv live (s.perform .next) [.connectDestroyed c] := by
  have hmem : c ∈ s.todo := by
    rw [htodo]
    exact List.mem_cons_self
  have hc : c < s.server.accepted := h.accepted c (h.members.subset (List.mem_append_right _ hmem))
  have hl := h.grounded.loop c hc
  let w : ServerState := { s.server with
    connections := Function.update s.server.connections (s.server.conns c).name none }
  have hperform : s.perform .next = { s with
      server := w.push 0 [.connectDestroyed c], todo := rest, begun := c :: s.begun } := by
    simp only [perform, htodo]
    rw [runInLoop, if_pos hl.symm]
  have hphase := h.phase
  generalize hbegun : s.begun = begun at hphase
  cases hphase with
  | between hold =>
    rw [hperform]
    constructor
    case grounded =>
      refine ⟨h.grounded.numThreads, h.grounded.loop, h.grounded.fds, fun d hd => ?_⟩
      rw [push_pollers]
      exact h.grounded.tracks d hd
    case stack =>
      have hstack : (s.server.loops 0).stack = s.base := h.stack
      change ((w.push 0 [.connectDestroyed c]).loops 0).stack = _
      rw [push, setStack, setLoop_self]
      exact congrArg _ hstack
    case asserted => exact h.asserted
    case nodup => exact h.nodup
    case accepted => exact h.accepted
    case members =>
      have hmembers := h.members
      rw [htodo] at hmembers
      exact List.perm_middle.symm.trans hmembers
    case waiting =>
      intro d hd
      refine h.waiting d ?_
      rw [htodo]
      exact List.mem_cons_of_mem c hd
    case phase =>
      have hready : w.Stands c Destroyable := (h.waiting c hmem).destroyable hsafe
      change Phase _ _ (c :: s.begun)
      rw [hbegun]
      exact .called hready hold

theorem perform_run {t : ServerTask} {rest : List ServerTask} {k : Kernel}
    (hstack : s.stack = t :: rest) (hok : (s.server.setStack 0 rest).runTask 0 k t = .ok w') :
    s.perform (.inner (.run 0 k)) = { s with server := w' } := by
  have hstack' : (s.server.loops 0).stack = t :: rest := hstack
  simp only [perform, ServerState.perform, hstack', hok]
  rfl

/-- A task of `connect_destroyed` of `c` has run. -/
theorem Inv.handle {t : ServerTask} (h : Inv live s [t]) (ts : List ServerTask)
    (hbegun : s.begun = c :: begun) (howner : ∀ d, t.owner = some d → d = c) {x : ConnContext}
    {events : List ServerEvent}
    (hfd : x.conn.channel.fd = (s.server.conns c).conn.channel.fd)
    (hsame : Poller.SameExcept (s.server.conns c).conn.channel.fd
      (s.server.pollers (s.server.conns c).loop) x.poller)
    (htracks : x.poller.Tracks x.conn.channel) (hev : ∀ e ∈ events, e.conn = c)
    (hof : ∀ t ∈ ts, t.Of c) {P : TcpConnection → Nat → Prop}
    (hP : P x.conn (s.server.downs c + events.count (.connectionCallback c false)))
    (hold : ∀ d ∈ begun, s.server.Stands d (Told .kNew))
    (hphase : ∀ w : ServerState, w.Stands c P → (∀ d ∈ begun, w.Stands d (Told .kNew)) →
      Phase w ts (c :: begun)) :
    Inv live { s with server := s.server.handled c s.base x events ts } ts := by
  have hmem : c ∈ s.begun := by
    rw [hbegun]
    exact List.mem_cons_self
  have hl := h.grounded.loop c (h.begun_accepted hmem)
  have hstack : (s.server.loops 0).stack = t :: s.base := h.stack
  have ht := handled_touches hstack howner hfd hsame hev hof hl
  refine h.touch hmem ht handled_numThreads (handled_tracks hl htracks) (handled_stack hl) ?_
  rw [hbegun]
  refine hphase _ ?_ fun d hd => ht.stands (h.begun_ne hbegun hd) (hold d hd)
  rw [Stands, handled_conn, downs_handled]
  exact hP

/-- `connect_destroyed`, up to `channel_->remove()`. A connection that is up is told
    about; one that `handle_close` has seen is not told about again. -/
theorem Inv.connectDestroyed (h : Inv live s [.connectDestroyed c]) (hbegun : s.begun = c :: begun)
    (hc : s.server.Stands c Destroyable) (hold : ∀ d ∈ begun, s.server.Stands d (Told .kNew))
    (k : Kernel) : Inv live (s.perform (.inner (.run 0 k))) [.userCode, .channelRemove c] ∨
      Inv live (s.perform (.inner (.run 0 k))) [.channelRemove c] := by
  have hmem : c ∈ s.begun := by
    rw [hbegun]
    exact List.mem_cons_self
  have hacc := h.begun_accepted hmem
  have htracks := h.grounded.tracks c hacc
  have hl : 0 = ((s.server.setStack 0 s.base).conns c).loop := (h.grounded.loop c hacc).symm
  have howner : ∀ d, (ServerTask.connectDestroyed c).owner = some d → d = c :=
    fun d heq => (Option.some.inj heq).symm
  rcases hc with ⟨⟨hopen, hup⟩, hzero⟩ | ⟨hdown, hone⟩
  · left
    obtain ⟨p, hok, htracks', hsame⟩ :=
      ConnContext.connectDestroyed_connected (x := s.server.context c) htracks hup
    have hrun : (s.server.setStack 0 s.base).runTask 0 k (.connectDestroyed c) =
        .ok (s.server.handled c s.base
          (((s.server.context c).setState .kDisconnected).withEvents p kNoneEvent)
          [.connectDestroyed c, .connectionCallback c false] [.userCode, .channelRemove c]) := by
      rw [runTask, assertInLoopThread_self hl, setStack_context, hok]
      rfl
    have hindex : Poller.nextIndex (s.server.conns c).conn.channel.index kNoneEvent = .kDeleted := by
      rw [hopen.2.1]
      rfl
    rw [perform_run h.stack hrun]
    refine h.handle [.userCode, .channelRemove c] (P := Told .kDeleted) hbegun howner rfl
      hsame htracks' ?_ ?_ ?_ hold fun w => Phase.telling
    · simp [ServerEvent.conn]
    · intro t ht
      rcases List.mem_cons.mp ht with rfl | ht
      · exact of_userCode c
      · exact Stage.destroying.task_of c t ht
    · refine ⟨⟨⟨Or.inl rfl, rfl, hindex⟩, rfl⟩, ?_⟩
      rw [hzero]
      simp
  · right
    have hup : (s.server.conns c).conn.state ≠ .kConnected := by
      rcases hdown.1 with hstate | hstate
      · rw [hstate]
        decide
      · rw [hstate]
        decide
    have hrun : (s.server.setStack 0 s.base).runTask 0 k (.connectDestroyed c) =
        .ok (s.server.handled c s.base ((s.server.context c).setState .kDisconnected)
          [.connectDestroyed c] [.channelRemove c]) := by
      rw [runTask, assertInLoopThread_self hl, setStack_context,
        ConnContext.connectDestroyed_other (x := s.server.context c) hup]
      rfl
    rw [perform_run h.stack hrun]
    refine h.handle [.channelRemove c] (P := Told .kDeleted) hbegun howner rfl
      (fun _ _ => ⟨rfl, rfl⟩) htracks ?_ ?_ ?_ hold fun w => Phase.removing
    · simp [ServerEvent.conn]
    · exact Stage.destroying.task_of c
    · refine ⟨⟨⟨Or.inl rfl, hdown.2⟩, rfl⟩, ?_⟩
      rw [hone]
      simp

theorem Inv.channelRemove (h : Inv live s [.channelRemove c]) (hbegun : s.begun = c :: begun)
    (hc : s.server.Stands c (Told .kDeleted))
    (hold : ∀ d ∈ begun, s.server.Stands d (Told .kNew)) (k : Kernel) :
    Inv live (s.perform (.inner (.run 0 k))) [] := by
  have hmem : c ∈ s.begun := by
    rw [hbegun]
    exact List.mem_cons_self
  have hacc := h.begun_accepted hmem
  have hl : 0 = ((s.server.setStack 0 s.base).conns c).loop := (h.grounded.loop c hacc).symm
  obtain ⟨⟨⟨_, hmask, hindex⟩, hstate⟩, hone⟩ := hc
  have hknown : (s.server.conns c).conn.channel.index ≠ .kNew := by
    rw [hindex]
    decide
  obtain ⟨p, hok, htracks, hsame⟩ := ConnContext.removeChannel_spec (x := s.server.context c)
    (h.grounded.tracks c hacc) hmask hknown
  have hrun : (s.server.setStack 0 s.base).runTask 0 k (.channelRemove c) =
      .ok (s.server.handled c s.base ((s.server.context c).forgotten p) [.channelRemove c] []) := by
    rw [runTask, assertInLoopThread_self hl, setStack_context, hok, handled, push_nil]
    rfl
  rw [perform_run h.stack hrun]
  refine h.handle [] (P := Told .kNew) hbegun ?_ rfl hsame htracks ?_ (List.forall_mem_nil _) ?_ hold ?_
  · exact fun d heq => (Option.some.inj heq).symm
  · simp [ServerEvent.conn]
  · refine ⟨⟨⟨Or.inl hstate, hmask, rfl⟩, hstate⟩, ?_⟩
    rw [hone]
    simp
  · exact fun w hgone hrest => .between (List.forall_mem_cons.mpr ⟨hgone, hrest⟩)

section UserCall

variable {u : UserCall} {x : ConnContext} (hx : Serves (w.context d) x)
include hx

theorem waiting_store (h : w.Stands c Waiting) : (w.store d x).Stands c Waiting := by
  refine h.store fun heq => ?_
  subst heq
  rintro (⟨hopen, hzero⟩ | ⟨hdown, hone⟩)
  · exact Or.inl ⟨hx.fits .up (by decide) hopen, hzero⟩
  · exact Or.inr ⟨hx.fits .closed (by decide) hdown, hone⟩

/-- A connection that is down stays so, unless it is shut down once more. -/
theorem told_store (hok : u.apply (w.context d) = .ok x) (hu : c = d → u ≠ .shutdown) (st : Stage)
    {index : ChannelIndex} (hst : 0 < st.reached) (hfits : ∀ conn, st.Fits conn ↔ conn.Down index)
    (h : w.Stands c (Told index)) : (w.store d x).Stands c (Told index) := by
  refine h.store fun heq => ?_
  subst heq
  rintro ⟨⟨hdown, hstate⟩, hone⟩
  refine ⟨⟨?_, ConnContext.userCall_disconnected (hu rfl) hstate hok⟩, hone⟩
  exact (hfits _).mp (hx.fits st hst ((hfits _).mpr hdown))

end UserCall

/-- User code calls a connection while it is told about another. -/
theorem Inv.call (h : Inv live s [.userCode, .channelRemove c]) (hd : d < s.server.accepted)
    {u : UserCall} (hsafe : u = .shutdown → d ∉ s.begun) (l : Nat) :
    Inv live (s.perform (.inner (.call l d u))) [.userCode, .channelRemove c] := by
  have hserved := userCall_serves (x := s.server.context d) u (h.grounded.tracks d hd)
  cases hu : u.apply (s.server.context d) with
  | error f =>
    rw [hu] at hserved
    simp only [perform, ServerState.perform, hu]
    exact h.fail hserved
  | ok x =>
    rw [hu] at hserved
    have hx : Serves (s.server.context d) x := hserved
    have hperform : s.perform (.inner (.call l d u)) = { s with server := s.server.store d x } := by
      simp only [perform, ServerState.perform, hu]
      rfl
    have hl := h.grounded.loop d hd
    rw [hperform]
    constructor
    case grounded =>
      refine h.grounded.touch hd (store_touches hx.fd hx.others) rfl ?_
      change ((s.server.store d x).pollers ((s.server.store d x).conns d).loop).Tracks
        ((s.server.store d x).conns d).conn.channel
      rw [store_conn_self, store_pollers, Function.update_self]
      exact hx.tracks
    case stack =>
      have hstack : (s.server.loops 0).stack = .userCode :: .channelRemove c :: s.base := h.stack
      change ((s.server.store d x).loops 0).stack = _
      rw [store, hl, setLoop_self]
      exact hstack
    case asserted => exact h.asserted
    case nodup => exact h.nodup
    case accepted => exact h.accepted
    case members => exact h.members
    case waiting => exact fun e he => waiting_store hx (h.waiting e he)
    case phase =>
      have hkeep : ∀ e ∈ s.begun, e = d → u ≠ .shutdown := by
        rintro e he rfl hshut
        exact hsafe hshut he
      have hphase := h.phase
      change Phase (s.server.store d x) _ s.begun
      generalize s.begun = b at hphase hkeep
      cases hphase with
      | telling hc hold =>
        obtain ⟨hkeepc, hkeep⟩ := List.forall_mem_cons.mp hkeep
        refine .telling ?_ fun e he => ?_
        · exact told_store hx hu hkeepc .closed (by decide) (fun _ => Iff.rfl) hc
        · exact told_store hx hu (hkeep e he) .gone (by decide) (fun _ => Iff.rfl) (hold e he)

theorem Inv.userReturn (h : Inv live s [.userCode, .channelRemove c]) :
    Inv live (s.perform (.inner (.userReturn 0))) [.channelRemove c] := by
  have hstack : (s.server.loops 0).stack = .userCode :: .channelRemove c :: s.base := h.stack
  change Inv live { s with server := s.server.setStack 0 (s.server.loops 0).stack.tail } _
  refine h.setLoop rfl ?_ ?_
  · rw [hstack]
    rfl
  · have hphase := h.phase
    generalize s.begun = b at hphase
    cases hphase with
    | telling hc hold => exact .removing hc hold

theorem Inv.userFunctor (h : Inv live s inside) :
    Inv live (s.perform (.inner (.userFunctor 0))) inside :=
  h.setLoop rfl h.stack h.phase

/-- What is still to be done for the tasks of `connect_destroyed`. -/
def effort (inside : List ServerTask) : Nat :=
  (inside.map fun
    | .connectDestroyed _ => 3
    | _ => 1).sum

/-- The thread is inside `connect_destroyed`, and in user code: the callback. -/
theorem Inv.inside_of_userCode (h : Inv live s inside) (hlen : s.base.length < s.stack.length)
    (hhead : s.stack.head? = some .userCode) :
    ∃ c, inside = [.userCode, .channelRemove c] := by
  have hphase := h.phase
  rw [h.stack] at hlen hhead
  generalize s.begun = b at hphase
  cases hphase with
  | between hold => exact absurd hlen (Nat.lt_irrefl _)
  | called hc hold => cases hhead
  | telling hc hold => exact ⟨_, rfl⟩
  | removing hc hold => cases hhead

/-- The task on top of the stack, inside `connect_destroyed`. -/
theorem Inv.run (h : Inv live s inside) (hlen : s.base.length < s.stack.length)
    (hhead : s.stack.head? ≠ some .userCode) (k : Kernel) :
    ∃ inside', Inv live (s.perform (.inner (.run 0 k))) inside' ∧
      1 + (4 * s.todo.length + effort inside') ≤ 4 * s.todo.length + effort inside := by
  have hphase := h.phase
  rw [h.stack] at hlen hhead
  generalize hbegun : s.begun = b at hphase
  cases hphase with
  | between hold => exact absurd hlen (Nat.lt_irrefl _)
  | called hc hold =>
    rcases h.connectDestroyed hbegun hc hold k with htelling | hremoving
    · refine ⟨_, htelling, ?_⟩
      change 1 + (4 * s.todo.length + 2) ≤ 4 * s.todo.length + 3
      omega
    · refine ⟨_, hremoving, ?_⟩
      change 1 + (4 * s.todo.length + 1) ≤ 4 * s.todo.length + 3
      omega
  | telling hc hold => exact absurd rfl hhead
  | removing hc hold =>
    refine ⟨_, h.channelRemove hbegun hc hold k, ?_⟩
    change 1 + (4 * s.todo.length + 0) ≤ 4 * s.todo.length + 1
    omega

/-- **Every step** that meets the condition. Those of the destructor itself bring it
    nearer to its end. -/
theorem Inv.step (h : Inv live s inside) {a : TeardownStep}
    (hstep : (system.restrict Safe).step s a t) : ∃ inside', Inv live t inside' ∧
      a.isWork.toNat + (4 * t.todo.length + effort inside') ≤
        4 * s.todo.length + effort inside := by
  obtain ⟨hsafe, henabled, rfl⟩ := hstep
  have hzero : ∀ l, l ≤ s.server.numThreads → l = 0 := fun l hl =>
    Nat.le_zero.mp (h.grounded.numThreads ▸ hl)
  cases a with
  | next =>
    obtain ⟨_, hstack, hne⟩ := henabled
    obtain ⟨c, rest, htodo⟩ := List.exists_cons_of_ne_nil hne
    obtain rfl : inside = [] := by
      have hempty := h.stack.symm.trans hstack
      exact List.append_left_eq_self.mp hempty
    refine ⟨_, h.next htodo (hsafe c (by rw [htodo]; rfl)), ?_⟩
    have htodo' : (s.perform .next).todo = rest := by simp only [perform, htodo]
    rw [htodo', htodo, List.length_cons]
    change 1 + (4 * rest.length + 3) ≤ 4 * (rest.length + 1) + 0
    omega
  | inner a =>
    cases a with
    | run l k =>
      obtain ⟨hlen, _, hl, _, hhead⟩ := henabled
      obtain rfl := hzero l hl
      exact h.run hlen hhead k
    | call l d u =>
      obtain ⟨hlen, _, hl, hhead, hd, _⟩ := henabled
      obtain rfl := hzero l hl
      obtain ⟨c, rfl⟩ := h.inside_of_userCode hlen hhead
      refine ⟨_, h.call hd (fun hshut => ?_) 0, Nat.le_of_eq (Nat.zero_add _)⟩
      subst hshut
      exact hsafe
    | userReturn l =>
      obtain ⟨hlen, _, hl, hhead⟩ := henabled
      obtain rfl := hzero l hl
      obtain ⟨c, rfl⟩ := h.inside_of_userCode hlen hhead
      refine ⟨_, h.userReturn, ?_⟩
      change 1 + (4 * s.todo.length + 1) ≤ 4 * s.todo.length + 2
      omega
    | userFunctor l =>
      obtain rfl := hzero l henabled.2.2
      exact ⟨_, h.userFunctor, Nat.le_of_eq (Nat.zero_add _)⟩
    | poll l ready | next l | swap l | again l => exact absurd henabled.1 id

-- ════════════════════════════════════════════════════════════════════════
-- The whole teardown
-- ════════════════════════════════════════════════════════════════════════

/-- A connection in `connections_` that has been set up. -/
theorem waiting_of_at {st : Stage} (hat : w.At c st) (hreached : st.reached < 5)
    (hstate : (w.conns c).conn.state ≠ .kConnecting) : w.Stands c Waiting := by
  have hdowns : w.downs c = ((lifeCycle c).take st.reached).count (.connectionCallback c false) := by
    rw [← hat.has.logged.milestones]
    exact (count_milestones rfl rfl).symm
  have hfits := hat.has.fits
  cases st with
  | queued => exact absurd hfits.1 hstate
  | polled revents => exact Or.inl ⟨hfits.1, hdowns.trans (by simp [Stage.reached, lifeCycle])⟩
  | up | reading | closing =>
    exact Or.inl ⟨hfits, hdowns.trans (by simp [Stage.reached, lifeCycle])⟩
  | closed | removing =>
    exact Or.inr ⟨hfits, hdowns.trans (by simp [Stage.reached, lifeCycle])⟩
  | erased | destroying | gone => exact absurd hreached (by decide)

theorem Begins.inv (h : Begins s) : Inv s.todo s [] := by
  have hinv := reachable_inv h.reachable
  have hsingle := reachable_single h.reachable h.numThreads
  have hhead : ∀ c, (s.server.loops 0).stack.head? ≠ some (.connectEstablished c) := by
    intro c heq
    cases h.caller _ heq
  refine ⟨hinv.grounded hsingle, h.base.symm, hinv.asserted, h.nodup, ?_, ?_, ?_, ?_⟩
  · exact fun c hc => ((h.live c).mp hc).1
  · rw [h.begun]
    exact .refl _
  · intro c hc
    obtain ⟨hlt, hentry⟩ := (h.live c).mp hc
    obtain ⟨st, hat⟩ := hinv.stage c hlt
    refine waiting_of_at hat ?_ (hsingle.settled hhead hlt)
    by_contra hge
    rw [hat.has.entry, if_neg hge] at hentry
    cases hentry
  · rw [h.begun]
    exact .between (List.forall_mem_nil _)

/-- The destructor is never stuck. -/
theorem Inv.progress (h : Inv live s inside) (hfault : s.server.fault = none)
    (hunfinished : ¬s.Finished) : ∃ a : TeardownStep, a.isWork = true ∧ s.Enabled a := by
  have hstack := h.stack
  have hstack' : (s.server.loops 0).stack = inside ++ s.base := h.stack
  have hlen : ∀ t ts, inside = t :: ts → s.base.length < s.stack.length := by
    rintro t ts rfl
    rw [hstack, List.length_append, List.length_cons]
    omega
  have hrun : ∀ t ts, inside = t :: ts → t ≠ .userCode →
      ∃ a : TeardownStep, a.isWork = true ∧ s.Enabled a := by
    intro t ts hinside hne
    refine ⟨.inner (.run 0 ⟨.delivered [], .wrote 0, none⟩), rfl, hlen t ts hinside, hfault,
      Nat.zero_le _, ?_, ?_⟩
    · rw [hstack', hinside]
      exact List.cons_ne_nil _ _
    · rw [hstack', hinside]
      exact fun heq => hne (Option.some.inj heq)
  have hphase := h.phase
  generalize s.begun = b at hphase
  cases hphase with
  | between hold =>
    refine ⟨.next, rfl, hfault, hstack, fun htodo => ?_⟩
    exact hunfinished ⟨htodo, hstack⟩
  | called hc hold => exact hrun _ _ rfl ServerTask.noConfusion
  | telling hc hold =>
    refine ⟨.inner (.userReturn 0), rfl, hlen _ _ rfl, hfault, Nat.zero_le _, ?_⟩
    rw [hstack']
    rfl
  | removing hc hold => exact hrun _ _ rfl ServerTask.noConfusion

theorem Inv.destroyed (h : Inv live s inside) (hfinished : s.Finished) (hc : c ∈ live) :
    Destroyed s.server c := by
  obtain rfl : inside = [] := List.append_left_eq_self.mp (h.stack.symm.trans hfinished.2)
  have hbegun : c ∈ s.begun := by
    have hmem := h.members.symm.subset hc
    rw [hfinished.1, List.append_nil] at hmem
    exact hmem
  have htracks := h.grounded.tracks c (h.begun_accepted hbegun)
  have hphase := h.phase
  generalize s.begun = b at hphase hbegun
  cases hphase with
  | between hold =>
    obtain ⟨⟨⟨_, hmask, hindex⟩, hstate⟩, hone⟩ := hold c hbegun
    rw [Poller.Tracks, hindex] at htracks
    exact ⟨hstate, hmask, htracks.1, htracks.2, hone⟩

/-- **Teardown.** Whatever the server has gone through before and whatever the callbacks
    do, if `connect_destroyed` is only called on connections that are
    `k_connected` or have an empty mask, and none is shut down after that, then no assertion
    fails, the destructor comes to its end, and every connection is destroyed. -/
theorem teardown_safe {s₀ s : Teardown} {tr : List TeardownStep} (h : Begins s₀)
    (hrun : (system.restrict Safe).Run s₀ tr s) :
    (∀ a, s.server.fault ≠ some (.assertion a)) ∧
      tr.countP TeardownStep.isWork ≤ 4 * s₀.todo.length ∧
      (s.server.fault = none → ¬s.Finished → ∃ a : TeardownStep, a.isWork = true ∧ s.Enabled a) ∧
      (s.Finished → ∀ c ∈ s₀.todo, Destroyed s.server c) := by
  have hinv : ∃ inside, Inv s₀.todo s inside ∧ tr.countP TeardownStep.isWork +
      (4 * s.todo.length + effort inside) ≤ 4 * s₀.todo.length := by
    refine hrun.trace_invariant (I := fun tr s => ∃ inside, Inv s₀.todo s inside ∧
      tr.countP TeardownStep.isWork + (4 * s.todo.length + effort inside) ≤ 4 * s₀.todo.length)
      ⟨[], h.inv, Nat.le_of_eq (Nat.zero_add _)⟩ ?_
    rintro tr t a u ⟨inside, ht, hleft⟩ hstep
    obtain ⟨inside', hu, hwork⟩ := ht.step hstep
    refine ⟨inside', hu, ?_⟩
    have hcount : [a].countP TeardownStep.isWork = a.isWork.toNat := by
      cases hwork : a.isWork <;> simp [hwork]
    rw [List.countP_append, hcount]
    omega
  obtain ⟨inside, hs, hleft⟩ := hinv
  refine ⟨hs.asserted, by omega, hs.progress, fun hfinished c hc => hs.destroyed hfinished hc⟩

/-- A destructor that finds one connection, between two handlers. -/
theorem begins_of_one {tr : List ServerStep}
    (hallowed : Transition.System.Allowed (fun w a => w.KernelBehaves a ∧ w.Enabled a)
      ServerState.perform (.start "echo" 0) tr)
    (hw : tr.foldl ServerState.perform (.start "echo" 0) = w)
    (hidle : w.numThreads = 0 ∧ w.fault = none ∧ (w.loops 0).stack = [])
    (hone : w.accepted = 1 ∧ w.connections (w.conns 0).name = some 0) :
    Begins ⟨w, [0], [], []⟩ where
  reachable := ⟨_, tr, ⟨"echo", 0, rfl⟩, hw ▸ .of_allowed_restrict hallowed⟩
  numThreads := hidle.1
  running := hidle.2.1
  caller t ht := by
    rw [Teardown.stack, hidle.2.2] at ht
    cases ht
  nodup := List.nodup_singleton 0
  live c := by
    rw [List.mem_singleton, hone.1, Nat.lt_one_iff]
    constructor
    · rintro rfl
      exact ⟨rfl, hone.2⟩
    · exact fun hc => hc.1
  begun := rfl
  base := hidle.2.2.symm

/-- A connection is accepted and set up; then the server goes away. -/
theorem teardown_safe_echo : ∃ (s₀ s : Teardown) (tr : List TeardownStep), Begins s₀ ∧ s₀.todo = [0] ∧
    (s₀.server.conns 0).conn.state = .kConnected ∧ (system.restrict Safe).Run s₀ tr s ∧
    s.Finished ∧ Destroyed s.server 0 := by
  let k : Kernel := ⟨.delivered [], .wrote 0, none⟩
  let tr : List ServerStep := [.poll 0 [.listening], .next 0, .run 0 { k with accept := some 7 },
    .run 0 k, .userReturn 0]
  have hbegins : Begins ⟨tr.foldl ServerState.perform (.start "echo" 0), [0], [], []⟩ :=
    begins_of_one (by decide +kernel) rfl (by decide +kernel) (by decide +kernel)
  have hrun : (system.restrict Safe).Run
      ⟨tr.foldl ServerState.perform (.start "echo" 0), [0], [], []⟩
      [.next, .inner (.run 0 k), .inner (.userReturn 0), .inner (.run 0 k)] _ :=
    .of_allowed_restrict (by decide +kernel)
  have hfinished : Finished (List.foldl perform
      ⟨tr.foldl ServerState.perform (.start "echo" 0), [0], [], []⟩
      [.next, .inner (.run 0 k), .inner (.userReturn 0), .inner (.run 0 k)]) :=
    ⟨by decide +kernel, by decide +kernel⟩
  exact ⟨_, _, _, hbegins, rfl, by decide +kernel, hrun, hfinished,
    (teardown_safe hbegins hrun).2.2.2 hfinished 0 (List.mem_singleton_self 0)⟩

/-- The same, but the user has called `shutdown()` and the peer has not closed yet:
    `connect_destroyed` leaves the mask as it is, and `channel_->remove()` fails. -/
theorem teardown_after_shutdown : ∃ s₀ s : Teardown, ∃ tr, Begins s₀ ∧ s₀.todo = [0] ∧
    (s₀.server.conns 0).conn.state = .kDisconnecting ∧ system.Run s₀ tr s ∧
    s.server.fault = some (.assertion "is_none_event()") := by
  let k : Kernel := ⟨.delivered [], .wrote 0, none⟩
  let tr : List ServerStep := [.poll 0 [.listening], .next 0, .run 0 { k with accept := some 7 },
    .run 0 k, .call 0 0 .shutdown, .userReturn 0]
  have hbegins : Begins ⟨tr.foldl ServerState.perform (.start "echo" 0), [0], [], []⟩ :=
    begins_of_one (by decide +kernel) rfl (by decide +kernel) (by decide +kernel)
  have hrun : system.Run ⟨tr.foldl ServerState.perform (.start "echo" 0), [0], [], []⟩
      [.next, .inner (.run 0 k), .inner (.run 0 k)] _ :=
    .of_allowed (by decide +kernel)
  exact ⟨_, _, _, hbegins, rfl, by decide +kernel, hrun, by decide +kernel⟩

end Teardown

end DamnWebServer
