import DamnWebServer.Net.TcpServer
import DamnWebServer.Lib.Queues

/-!
# The stages of a connection's life

A connection is at one of ten stages. The stage fixes the state of the
connection and of its channel, its entry in `connections_`, the calls made so far,
and the one task anywhere that can take it further. `ServerState.At` puts this
together; `Touches` says what a step on one connection leaves to the others.
-/

namespace DamnWebServer

/-- The connection a task drives. The handlers of writability and of errors
    drive none. -/
def ServerTask.owner : ServerTask → Option Nat
  | .handleEvent c _ => some c
  | .callback c .read | .callback c .close => some c
  | .callback _ .write | .callback _ .error => none
  | .acceptorHandleRead | .userCode => none
  | .connectEstablished c | .handleClose c | .closeCallback c | .removeConnectionInLoop c
  | .connectDestroyed c | .channelRemove c => some c

def ServerTask.drives (c : Nat) (t : ServerTask) : Bool := t.owner = some c

/-- A task that may be run on behalf of the connection `c`. -/
structure ServerTask.Of (c : Nat) (t : ServerTask) : Prop where
  owner : ∀ d, t.owner = some d → d = c
  acceptor : t ≠ .acceptorHandleRead
  callback : ∀ d k, t = .callback d k → d = c

/-- The tasks that are queued as functors. -/
def ServerTask.isFunctor : ServerTask → Bool
  | .connectEstablished _ | .removeConnectionInLoop _ | .connectDestroyed _ | .userCode => true
  | _ => false

def ServerEvent.conn : ServerEvent → Nat
  | .connectEstablished c | .connectionCallback c _ | .handler c _ | .handleClose c
  | .removeConnectionInLoop c _ | .connectDestroyed c | .channelRemove c => c

def ServerEvent.isHandler : ServerEvent → Bool
  | .handler _ _ => true
  | _ => false

/-- Everything that happened to a connection. -/
def history (c : Nat) (log : List ServerEvent) : List ServerEvent := log.filter (·.conn = c)

/-- Without its reads, writes and errors. -/
def milestones (c : Nat) (log : List ServerEvent) : List ServerEvent :=
  (history c log).filter (!·.isHandler)

/-- The milestones of a whole life. -/
def lifeCycle (c : Nat) : List ServerEvent :=
  [.connectEstablished c, .connectionCallback c true, .handleClose c, .connectionCallback c false,
    .removeConnectionInLoop c 1, .connectDestroyed c, .channelRemove c]

/-- The log holds the first `n` milestones, and nothing of the connection before
    `connect_established`. -/
structure Logged (c : Nat) (log : List ServerEvent) (n : Nat) : Prop where
  milestones : milestones c log = (lifeCycle c).take n
  first : ∀ e, (history c log).head? = some e → e = .connectEstablished c

theorem history_append (c : Nat) (log events : List ServerEvent) :
    history c (log ++ events) = history c log ++ history c events :=
  List.filter_append _ _

theorem milestones_append (c : Nat) (log events : List ServerEvent) :
    milestones c (log ++ events) = milestones c log ++ milestones c events := by
  rw [milestones, history_append, List.filter_append]
  rfl

theorem Logged.history_eq_nil {c : Nat} {log : List ServerEvent} (h : Logged c log 0) :
    history c log = [] := by
  cases hhist : history c log with
  | nil => rfl
  | cons e rest =>
    have he : e = .connectEstablished c := h.first e (by rw [hhist]; rfl)
    have hnil := h.milestones
    rw [DamnWebServer.milestones, hhist, he] at hnil
    cases hnil

theorem Logged.history_ne_nil {c n : Nat} {log : List ServerEvent} (h : Logged c log n)
    (hn : 0 < n) : history c log ≠ [] := by
  intro hnil
  have hlog := h.milestones
  rw [DamnWebServer.milestones, hnil] at hlog
  have hlen := congrArg List.length hlog
  rw [List.length_take] at hlen
  change 0 = min n 7 at hlen
  omega

theorem Logged.reached_pos {c n : Nat} {log : List ServerEvent} (h : Logged c log n)
    (hhist : history c log ≠ []) : 0 < n := by
  refine Nat.pos_of_ne_zero fun hn => ?_
  subst hn
  exact hhist h.history_eq_nil

theorem history_of {c : Nat} {events : List ServerEvent} (h : ∀ e ∈ events, e.conn = c) :
    history c events = events :=
  List.filter_eq_self.mpr fun e he => decide_eq_true (h e he)

/-- Up to now nothing happened; the life begins. -/
theorem Logged.start {c : Nat} {log events : List ServerEvent} {n : Nat} (h : Logged c log 0)
    (hev : ∀ e ∈ events, e.conn = c) (hnew : events.filter (!·.isHandler) = (lifeCycle c).take n)
    (hfirst : events.head? = some (.connectEstablished c)) : Logged c (log ++ events) n := by
  have hhist : history c (log ++ events) = events := by
    rw [history_append, h.history_eq_nil, List.nil_append, history_of hev]
  refine ⟨?_, ?_⟩
  · rw [DamnWebServer.milestones, hhist]
    exact hnew
  · rw [hhist, hfirst]
    exact fun _ he => (Option.some.inj he).symm

/-- The life goes on. -/
theorem Logged.append {c : Nat} {log events : List ServerEvent} {n : Nat} (h : Logged c log n)
    (hn : 0 < n) (m : Nat) (hev : ∀ e ∈ events, e.conn = c)
    (hnew : events.filter (!·.isHandler) = ((lifeCycle c).drop n).take m) :
    Logged c (log ++ events) (n + m) := by
  refine ⟨?_, ?_⟩
  · rw [milestones_append, h.milestones, DamnWebServer.milestones, history_of hev, hnew,
      List.take_add]
  · intro e he
    refine h.first e ?_
    cases hhist : history c log with
    | nil => exact absurd hhist (h.history_ne_nil hn)
    | cons f rest =>
      rw [history_append, hhist] at he
      exact he

theorem Logged.handler {c : Nat} {log : List ServerEvent} {n : Nat} (h : Logged c log n)
    (hn : 0 < n) (k : ChannelCallback) : Logged c (log ++ [.handler c k]) n :=
  h.append hn 0 (fun _ he => by rw [List.mem_singleton.mp he]; rfl) rfl

/-- Where a connection is in its life. -/
inductive Stage where
  /-- `connect_established` is to be run. -/
  | queued
  | up
  /-- Its channel is among the active ones. -/
  | polled (revents : PollMask)
  /-- `handle_read` is to be run. -/
  | reading
  /-- `handle_close` is to be run. -/
  | closing
  /-- `close_callback_` is to be called. -/
  | closed
  | removing
  /-- `connect_destroyed` is to be run. -/
  | erased
  /-- `channel_->remove()` is to be run. -/
  | destroying
  | gone
  deriving DecidableEq

namespace Stage

/-- The task that takes the connection further. -/
def task (c : Nat) : Stage → List ServerTask
  | .queued => [.connectEstablished c]
  | .up | .gone => []
  | .polled revents => [.handleEvent c revents]
  | .reading => [.callback c .read]
  | .closing => [.handleClose c]
  | .closed => [.closeCallback c]
  | .removing => [.removeConnectionInLoop c]
  | .erased => [.connectDestroyed c]
  | .destroying => [.channelRemove c]

/-- The stage at which a task is the next one. -/
def ofTask : ServerTask → Stage
  | .connectEstablished _ => .queued
  | .handleEvent _ revents => .polled revents
  | .callback _ _ => .reading
  | .handleClose _ => .closing
  | .closeCallback _ => .closed
  | .removeConnectionInLoop _ => .removing
  | .connectDestroyed _ => .erased
  | .channelRemove _ => .destroying
  | .acceptorHandleRead | .userCode => .up

theorem eq_ofTask {st : Stage} {c : Nat} {t : ServerTask} (h : st.task c = [t]) :
    st = ofTask t := by
  cases st with
  | up | gone => cases h
  | _ =>
    cases h
    rfl

/-- The loop that has the task. -/
def place (loop : Nat) : Stage → Nat
  | .removing => 0
  | _ => loop

/-- The milestones reached. -/
def reached : Stage → Nat
  | .queued => 0
  | .up | .polled _ | .reading | .closing => 2
  | .closed | .removing => 4
  | .erased => 5
  | .destroying => 6
  | .gone => 7

theorem length_task_le (st : Stage) (c : Nat) : (st.task c).length ≤ 1 := by
  cases st <;> simp [task]

theorem task_of (st : Stage) (c : Nat) : ∀ t ∈ st.task c, t.Of c := by
  intro t ht
  cases st with
  | up | gone => cases ht
  | _ =>
    rw [List.mem_singleton.mp ht]
    refine ⟨fun d heq => (Option.some.inj heq).symm, nofun, fun d k heq => ?_⟩
    cases heq <;> rfl

theorem filter_task (st : Stage) (c : Nat) : (st.task c).filter (·.drives c) = st.task c := by
  cases st <;> simp [task, ServerTask.drives, ServerTask.owner]

end Stage

namespace TcpConnection

/-- Between `connect_established` and `handle_close`. -/
def Open (conn : TcpConnection) : Prop :=
  (conn.state = .kConnected ∨ conn.state = .kDisconnecting) ∧ conn.channel.Watched

/-- After `handle_close`, with the given index of the channel. A late `shutdown()`
    may have set `k_disconnecting`. -/
def Down (conn : TcpConnection) (index : ChannelIndex) : Prop :=
  (conn.state = .kDisconnected ∨ conn.state = .kDisconnecting) ∧
    conn.channel.events = kNoneEvent ∧ conn.channel.index = index

end TcpConnection

/-- What the stage says about the connection itself. -/
def Stage.Fits (conn : TcpConnection) : Stage → Prop
  | .queued => conn.state = .kConnecting ∧ conn.channel.index = .kNew
  | .polled revents => conn.Open ∧ (revents.pollhup && !revents.pollin) = false
  | .up | .reading | .closing => conn.Open
  | .closed | .removing | .erased | .destroying => conn.Down .kDeleted
  | .gone => conn.Down .kNew

namespace ServerState

variable {w w' : ServerState} {c d l : Nat}

/-- The connection is at a stage, but for the tasks. -/
structure Has (w : ServerState) (c : Nat) (st : Stage) : Prop where
  fits : st.Fits (w.conns c).conn
  tracks : (w.pollers (w.conns c).loop).Tracks (w.conns c).conn.channel
  addr : (w.conns c).conn.channel.addr = c
  name : (w.conns c).name = connName w.name (c + 1)
  entry : w.connections (w.conns c).name = if st.reached < 5 then some c else none
  logged : Logged c w.log st.reached

/-- The connection is at a stage. -/
structure At (w : ServerState) (c : Nat) (st : Stage) : Prop where
  has : w.Has c st
  tasks : Queues.Holds w.tasks (ServerTask.drives c) (st.place (w.conns c).loop) (st.task c)

-- ════════════════════════════════════════════════════════════════════════
-- What the operations on the state change
-- ════════════════════════════════════════════════════════════════════════

theorem setLoop_self (w : ServerState) (l : Nat) (s : ServerLoop) : (w.setLoop l s).loops l = s :=
  Function.update_self _ _ _

theorem setLoop_of_ne (w : ServerState) (s : ServerLoop) {k : Nat} (h : k ≠ l) :
    (w.setLoop l s).loops k = w.loops k :=
  Function.update_of_ne h _ _

theorem setLoop_pollers (w : ServerState) (l : Nat) (s : ServerLoop) :
    (w.setLoop l s).pollers = Function.update w.pollers l s.poller :=
  Function.comp_update ServerLoop.poller w.loops l s

theorem setLoop_tasks (w : ServerState) (l : Nat) (s : ServerLoop) :
    (w.setLoop l s).tasks = Function.update w.tasks l s.tasks :=
  Function.comp_update ServerLoop.tasks w.loops l s

/-- A change of a loop that leaves its poller. -/
theorem setLoop_pollers_same {s : ServerLoop} (h : s.poller = (w.loops l).poller) :
    (w.setLoop l s).pollers = w.pollers := by
  rw [setLoop_pollers, h]
  exact Function.update_eq_self l w.pollers

/-- A change of a loop that leaves its tasks. -/
theorem setLoop_tasks_same {s : ServerLoop} (h : s.tasks = (w.loops l).tasks) :
    (w.setLoop l s).tasks = w.tasks := by
  rw [setLoop_tasks, h]
  exact Function.update_eq_self l w.tasks

@[simp] theorem push_pollers (w : ServerState) (l : Nat) (ts : List ServerTask) :
    (w.push l ts).pollers = w.pollers :=
  setLoop_pollers_same rfl

theorem push_tasks (w : ServerState) (l : Nat) (ts : List ServerTask) :
    (w.push l ts).tasks = Function.update w.tasks l (ts ++ w.tasks l) := by
  rw [push, setStack, setLoop_tasks]
  simp [ServerLoop.tasks, tasks]

@[simp] theorem queueInLoop_pollers (w : ServerState) (l : Nat) (t : ServerTask) :
    (w.queueInLoop l t).pollers = w.pollers :=
  setLoop_pollers_same rfl

theorem queueInLoop_tasks (w : ServerState) (l : Nat) (t : ServerTask) :
    (w.queueInLoop l t).tasks = Function.update w.tasks l (w.tasks l ++ [t]) := by
  rw [queueInLoop, setLoop_tasks]
  simp [ServerLoop.tasks, tasks]

@[simp] theorem store_pollers (w : ServerState) (c : Nat) (x : ConnContext) :
    (w.store c x).pollers = Function.update w.pollers (w.conns c).loop x.poller :=
  setLoop_pollers _ _ _

@[simp] theorem store_tasks (w : ServerState) (c : Nat) (x : ConnContext) :
    (w.store c x).tasks = w.tasks :=
  setLoop_tasks_same rfl

@[simp] theorem record_tasks (w : ServerState) (events : List ServerEvent) :
    (w.record events).tasks = w.tasks := rfl

@[simp] theorem record_pollers (w : ServerState) (events : List ServerEvent) :
    (w.record events).pollers = w.pollers := rfl

theorem store_conn_self (w : ServerState) (c : Nat) (x : ConnContext) :
    (w.store c x).conns c = { w.conns c with conn := x.conn, sock := x.sock } := by
  exact Function.update_self _ _ _

theorem store_conn_of_ne (w : ServerState) (x : ConnContext) (h : d ≠ c) :
    (w.store c x).conns d = w.conns d := by
  exact Function.update_of_ne h _ _

-- ════════════════════════════════════════════════════════════════════════
-- What a step on one connection leaves to the others
-- ════════════════════════════════════════════════════════════════════════

/-- Only the connection `c` is touched: its state, its entries in its poller and
    in `connections_`, its tasks and its events. -/
structure Touches (w w' : ServerState) (c : Nat) : Prop where
  accepted : w'.accepted = w.accepted
  nextConnId : w'.nextConnId = w.nextConnId
  name : w'.name = w.name
  fault : w'.fault = w.fault
  conns : ∀ d, d ≠ c → w'.conns d = w.conns d
  fd : (w'.conns c).conn.channel.fd = (w.conns c).conn.channel.fd
  loop : (w'.conns c).loop = (w.conns c).loop
  connName : (w'.conns c).name = (w.conns c).name
  pollers : ∀ l fd, ¬(l = (w.conns c).loop ∧ fd = (w.conns c).conn.channel.fd) →
    (w'.pollers l).channels fd = (w.pollers l).channels fd ∧
      (w'.pollers l).interest fd = (w.pollers l).interest fd
  connections : ∀ n, n ≠ (w.conns c).name → w'.connections n = w.connections n
  tasks : ∀ d, d ≠ c → ∀ l,
    (w'.tasks l).filter (ServerTask.drives d) = (w.tasks l).filter (ServerTask.drives d)
  kept : ∀ l, ∀ t ∈ w'.tasks l, t ∈ w.tasks l ∨ t ≠ .acceptorHandleRead ∧
    ∀ d k, t = .callback d k → d = c ∧ (w.conns c).loop = l
  log : ∀ d, d ≠ c → history d w'.log = history d w.log
  pending : (∀ l, ∀ t ∈ (w.loops l).pending, t.isFunctor = true) →
    ∀ l, ∀ t ∈ (w'.loops l).pending, t.isFunctor = true

theorem Touches.trans {w'' : ServerState} (h : Touches w w' c) (h' : Touches w' w'' c) :
    Touches w w'' c where
  accepted := h'.accepted.trans h.accepted
  nextConnId := h'.nextConnId.trans h.nextConnId
  name := h'.name.trans h.name
  fault := h'.fault.trans h.fault
  conns d hd := (h'.conns d hd).trans (h.conns d hd)
  fd := h'.fd.trans h.fd
  loop := h'.loop.trans h.loop
  connName := h'.connName.trans h.connName
  pollers l fd hfd := by
    obtain ⟨hc, hi⟩ := h.pollers l fd hfd
    obtain ⟨hc', hi'⟩ := h'.pollers l fd (by rw [h.loop, h.fd]; exact hfd)
    exact ⟨hc'.trans hc, hi'.trans hi⟩
  connections n hn := (h'.connections n (by rw [h.connName]; exact hn)).trans (h.connections n hn)
  tasks d hd l := (h'.tasks d hd l).trans (h.tasks d hd l)
  kept l t ht := by
    rcases h'.kept l t ht with ht | ⟨haccept, hcall⟩
    · exact h.kept l t ht
    · refine Or.inr ⟨haccept, fun d k hk => ?_⟩
      rw [← h.loop]
      exact hcall d k hk
  log d hd := (h'.log d hd).trans (h.log d hd)
  pending hp := h'.pending (h.pending hp)

/-- Only one loop is changed, not its poller and not the tasks of the others. -/
theorem setLoop_touches {s : ServerLoop} (hp : s.poller = (w.loops l).poller)
    (htasks : ∀ d, d ≠ c →
      s.tasks.filter (ServerTask.drives d) = (w.tasks l).filter (ServerTask.drives d))
    (hkept : ∀ t ∈ s.tasks, t ∈ w.tasks l ∨ t ≠ .acceptorHandleRead ∧
      ∀ d k, t = .callback d k → d = c ∧ (w.conns c).loop = l)
    (hpending : (∀ t ∈ (w.loops l).pending, t.isFunctor = true) →
      ∀ t ∈ s.pending, t.isFunctor = true) :
    Touches w (w.setLoop l s) c where
  accepted := rfl
  nextConnId := rfl
  name := rfl
  fault := rfl
  conns _ _ := rfl
  fd := rfl
  loop := rfl
  connName := rfl
  pollers k fd _ := by
    rw [setLoop_pollers_same hp]
    exact ⟨rfl, rfl⟩
  connections _ _ := rfl
  tasks d hd k := by
    rw [setLoop_tasks]
    by_cases hk : k = l
    · subst hk
      rw [Function.update_self, htasks d hd]
    · rw [Function.update_of_ne hk]
  kept k t ht := by
    rw [setLoop_tasks] at ht
    by_cases hk : k = l
    · subst hk
      rw [Function.update_self] at ht
      exact hkept t ht
    · rw [Function.update_of_ne hk] at ht
      exact Or.inl ht
  log _ _ := rfl
  pending hall k := by
    by_cases hk : k = l
    · subst hk
      rw [setLoop_self]
      exact hpending (hall k)
    · rw [setLoop_of_ne _ _ hk]
      exact hall k

theorem filter_drives_of {ts : List ServerTask} (h : ∀ t ∈ ts, t.Of c) (hd : d ≠ c) :
    ts.filter (ServerTask.drives d) = [] := by
  rw [List.filter_eq_nil_iff]
  intro t ht hdrives
  exact hd ((h t ht).owner d (of_decide_eq_true hdrives))

theorem push_touches {ts : List ServerTask} (h : ∀ t ∈ ts, t.Of c)
    (hl : ∀ k, .callback c k ∈ ts → (w.conns c).loop = l) : Touches w (w.push l ts) c := by
  refine setLoop_touches rfl (fun d hd => ?_) (fun t ht => ?_) id
  · simp only [ServerLoop.tasks, tasks, List.filter_append, filter_drives_of h hd,
      List.nil_append]
  · simp only [ServerLoop.tasks, tasks, List.append_assoc, List.mem_append] at ht ⊢
    refine ht.symm.imp_right fun hmem => ⟨(h t hmem).acceptor, fun d k hk => ?_⟩
    have hd := (h t hmem).callback d k hk
    subst hd hk
    exact ⟨rfl, hl k hmem⟩

theorem pop_touches {t : ServerTask} {rest : List ServerTask}
    (hstack : (w.loops l).stack = t :: rest) (h : ∀ d, t.owner = some d → d = c) :
    Touches w (w.setStack l rest) c := by
  refine setLoop_touches rfl (fun d hd => ?_) (fun u hu => Or.inl ?_) id
  · have hno : t.drives d = false := decide_eq_false fun heq => hd (h d heq)
    simp only [ServerLoop.tasks, tasks, hstack, List.cons_append, List.filter_cons, hno,
      Bool.false_eq_true, if_false]
  · simp only [ServerLoop.tasks, tasks, hstack, List.cons_append]
    exact List.mem_cons_of_mem t hu

theorem queueInLoop_touches {t : ServerTask} (hf : t.isFunctor = true) (h : t.Of c) :
    Touches w (w.queueInLoop l t) c := by
  have hall : ∀ u ∈ [t], u.Of c := by
    intro u hu
    rw [List.mem_singleton.mp hu]
    exact h
  refine setLoop_touches rfl (fun d hd => ?_) (fun u hu => ?_) ?_
  · simp only [ServerLoop.tasks, tasks, List.filter_append, filter_drives_of hall hd,
      List.append_nil]
  · simp only [ServerLoop.tasks, tasks, ← List.append_assoc, List.mem_append,
      List.mem_singleton] at hu ⊢
    refine hu.imp_right fun heq => ?_
    subst heq
    refine ⟨h.acceptor, fun d k hk => ?_⟩
    subst hk
    cases hf
  · intro hpend u hu
    rcases List.mem_append.mp hu with hu | hu
    · exact hpend u hu
    · rw [List.mem_singleton.mp hu]
      exact hf

theorem runInLoop_touches {target : Nat} {t : ServerTask} (hf : t.isFunctor = true) (h : t.Of c) :
    Touches w (w.runInLoop l target t) c := by
  unfold runInLoop
  split
  · refine push_touches (fun u hu => ?_) fun k hk => ?_
    · rw [List.mem_singleton.mp hu]
      exact h
    · rw [← List.mem_singleton.mp hk] at hf
      cases hf
  · exact queueInLoop_touches hf h

theorem mem_runInLoop {target k : Nat} {t u : ServerTask}
    (h : u ∈ (w.runInLoop l target t).tasks k) : u ∈ w.tasks k ∨ u = t := by
  unfold runInLoop at h
  split at h
  · rw [push_tasks] at h
    by_cases hk : k = l
    · subst hk
      rw [Function.update_self] at h
      exact (List.mem_cons.mp h).symm
    · rw [Function.update_of_ne hk] at h
      exact Or.inl h
  · rw [queueInLoop_tasks] at h
    by_cases hk : k = target
    · subst hk
      rw [Function.update_self] at h
      exact (List.mem_append.mp h).imp_right List.mem_singleton.mp
    · rw [Function.update_of_ne hk] at h
      exact Or.inl h

/-- The task is put where it belongs, at once or through the queue. -/
theorem runInLoop_holds {target : Nat} {t : ServerTask}
    (h : Queues.Holds w.tasks (ServerTask.drives c) d []) (ht : t.drives c = true) :
    Queues.Holds (w.runInLoop l target t).tasks (ServerTask.drives c) target [t] := by
  have hfilter : [t].filter (ServerTask.drives c) = [t] := List.filter_cons_of_pos ht
  unfold runInLoop
  split
  · rename_i heq
    subst heq
    rw [push_tasks]
    exact h.push hfilter
  · rw [queueInLoop_tasks]
    exact h.append hfilter

theorem store_touches {x : ConnContext} (hfd : x.conn.channel.fd = (w.conns c).conn.channel.fd)
    (hsame : Poller.SameExcept (w.conns c).conn.channel.fd (w.pollers (w.conns c).loop) x.poller) :
    Touches w (w.store c x) c where
  accepted := rfl
  nextConnId := rfl
  name := rfl
  fault := rfl
  conns d hd := store_conn_of_ne w x hd
  fd := by rw [store_conn_self]; exact hfd
  loop := by rw [store_conn_self]
  connName := by rw [store_conn_self]
  pollers k fd hk := by
    rw [store_pollers]
    by_cases hl : k = (w.conns c).loop
    · subst hl
      rw [Function.update_self]
      exact hsame fd fun heq => hk ⟨rfl, heq⟩
    · rw [Function.update_of_ne hl]
      exact ⟨rfl, rfl⟩
  connections _ _ := rfl
  tasks d _ k := by rw [store_tasks]
  kept k t ht := by rw [store_tasks] at ht; exact Or.inl ht
  log _ _ := rfl
  pending hall k := by
    by_cases hk : k = (w.conns c).loop
    · subst hk
      rw [store, setLoop_self]
      exact hall _
    · rw [store, setLoop_of_ne _ _ hk]
      exact hall k

theorem record_touches {events : List ServerEvent} (h : ∀ e ∈ events, e.conn = c) :
    Touches w (w.record events) c where
  accepted := rfl
  nextConnId := rfl
  name := rfl
  fault := rfl
  conns _ _ := rfl
  fd := rfl
  loop := rfl
  connName := rfl
  pollers _ _ _ := ⟨rfl, rfl⟩
  connections _ _ := rfl
  tasks _ _ _ := rfl
  kept _ _ ht := Or.inl ht
  log d hd := by
    have hnone : history d events = [] := by
      rw [history, List.filter_eq_nil_iff]
      intro e he heq
      exact hd ((of_decide_eq_true heq).symm.trans (h e he))
    rw [record, history_append, hnone, List.append_nil]
  pending := id

theorem setEntry_touches (w : ServerState) (c : Nat) (v : Option Nat) :
    Touches w { w with connections := Function.update w.connections (w.conns c).name v } c where
  accepted := rfl
  nextConnId := rfl
  name := rfl
  fault := rfl
  conns _ _ := rfl
  fd := rfl
  loop := rfl
  connName := rfl
  pollers _ _ _ := ⟨rfl, rfl⟩
  connections _ hn := Function.update_of_ne hn _ _
  tasks _ _ _ := rfl
  kept _ _ ht := Or.inl ht
  log _ _ := rfl
  pending := id

end ServerState

end DamnWebServer
