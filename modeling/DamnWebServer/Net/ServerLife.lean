import DamnWebServer.Net.ServerInvariant

/-!
# The life of a connection across the loops

Each task of a connection takes it from one stage to the next, and no assertion
fails on the way; user code and the writability handler leave it at its stage.
So every connection is at a stage in every reachable state, whatever the loops do
in whatever order, and `connection_life_cycle` reads off what that means for the
calls made on it.
-/

namespace DamnWebServer

namespace ServerState

variable {w w' : ServerState} {c d l : Nat} {st st' : Stage}

/-- A step on the connection `c` that leaves it at a stage. -/
def Advances (w : ServerState) (c : Nat) (w' : ServerState) : Prop :=
  Touches w w' c ∧ ∃ st, w'.At c st ∧ 0 < st.reached

theorem Advances.after {w'' : ServerState} (ht : Touches w w' c) (h : w'.Advances c w'') :
    w.Advances c w'' :=
  ⟨ht.trans h.1, h.2⟩

/-- A handler has run and left its trace. -/
theorem Has.storeRecord (h : w.Has c st) {x : ConnContext} {events : List ServerEvent}
    (hfits : st'.Fits x.conn) (htracks : x.poller.Tracks x.conn.channel)
    (haddr : x.conn.channel.addr = (w.conns c).conn.channel.addr)
    (hentry : (if st'.reached < 5 then some c else none) =
      if st.reached < 5 then some c else none)
    (hlog : Logged c (w.log ++ events) st'.reached) :
    ((w.store c x).record events).Has c st' := by
  have hself : ((w.store c x).record events).conns c =
      { w.conns c with conn := x.conn, sock := x.sock } := store_conn_self w c x
  refine ⟨?_, ?_, ?_, ?_, ?_, hlog⟩
  · rw [hself]
    exact hfits
  · rw [hself, record_pollers, store_pollers, Function.update_self]
    exact htracks
  · rw [hself]
    exact haddr.trans h.addr
  · rw [hself]
    exact h.name
  · rw [hself, hentry]
    exact h.entry

theorem assertInLoopThread_self {α : Type} {owner : Nat} (h : l = owner) (f : Except Fault α) :
    (assertInLoopThread l owner >>= fun _ => f) = f := by
  rw [assertInLoopThread, decide_eq_true h]
  rfl

theorem store_context (w : ServerState) (c : Nat) : w.store c (w.context c) = w := by
  rw [store, setConn, setLoop, context]
  simp only [pollers, Function.update_eq_self]

theorem record_nil (w : ServerState) : w.record [] = w := by
  rw [record, List.append_nil]

theorem push_nil (w : ServerState) (l : Nat) : w.push l [] = w := by
  rw [push, setStack, setLoop, List.nil_append, Function.update_eq_self]

theorem of_userCode (c : Nat) : ServerTask.userCode.Of c := ⟨nofun, nofun, nofun⟩

-- ════════════════════════════════════════════════════════════════════════
-- The tasks of a connection
-- ════════════════════════════════════════════════════════════════════════

section Tasks

variable (hidle : Queues.Holds w.tasks (ServerTask.drives c) l [])
include hidle

/-- A task of the connection is pushed in its own loop. -/
theorem Has.advance_push (h : w.Has c st) (hl : l = (w.conns c).loop) {ts : List ServerTask}
    (hof : ∀ t ∈ ts, t.Of c) (hplace : st.place (w.conns c).loop = (w.conns c).loop)
    (hts : ts.filter (ServerTask.drives c) = st.task c) (hst : 0 < st.reached) :
    w.Advances c (w.push l ts) := by
  refine ⟨push_touches hof fun _ _ => hl.symm, st, ⟨h.push ts, ?_⟩, hst⟩
  change Queues.Holds _ _ (st.place (w.conns c).loop) _
  rw [hplace, ← hl, push_tasks]
  refine hidle.put ?_
  rw [List.filter_append, hts, hidle.filter_eq_nil, List.append_nil]

/-- A handler has run, left its trace, and pushed what comes next. -/
theorem Has.advance_store (h : w.Has c st) (hl : l = (w.conns c).loop) (st' : Stage)
    (x : ConnContext)
    (hfd : x.conn.channel.fd = (w.conns c).conn.channel.fd)
    (hsame : Poller.SameExcept (w.conns c).conn.channel.fd (w.pollers (w.conns c).loop) x.poller)
    (htracks : x.poller.Tracks x.conn.channel)
    (haddr : x.conn.channel.addr = (w.conns c).conn.channel.addr)
    {events : List ServerEvent} (hev : ∀ e ∈ events, e.conn = c) (hfits : st'.Fits x.conn)
    (hentry : (if st'.reached < 5 then some c else none) =
      if st.reached < 5 then some c else none)
    (hlog : Logged c (w.log ++ events) st'.reached) {ts : List ServerTask}
    (hof : ∀ t ∈ ts, t.Of c) (hplace : st'.place (w.conns c).loop = (w.conns c).loop)
    (hts : ts.filter (ServerTask.drives c) = st'.task c) (hst : 0 < st'.reached) :
    w.Advances c (((w.store c x).record events).push l ts) := by
  have ht : Touches w ((w.store c x).record events) c :=
    (store_touches hfd hsame).trans (record_touches hev)
  have hhas := h.storeRecord hfits htracks haddr hentry hlog
  have hidle' : Queues.Holds ((w.store c x).record events).tasks (ServerTask.drives c) l [] := by
    rw [record_tasks, store_tasks]
    exact hidle
  refine Advances.after ht (hhas.advance_push hidle' ?_ hof ?_ hts hst)
  · rw [ht.loop]
    exact hl
  · rw [ht.loop]
    exact hplace

theorem handleEvent_advances {revents : PollMask} (h : w.Has c (.polled revents))
    (hl : l = (w.conns c).loop) :
    w.Advances c (w.push l ((Channel.handleEvent revents).map (.callback c))) := by
  obtain ⟨hopen, hhup⟩ := h.fits
  have hof : ∀ t ∈ (Channel.handleEvent revents).map (ServerTask.callback c), t.Of c := by
    intro t ht
    obtain ⟨k, _, rfl⟩ := List.mem_map.mp ht
    refine ⟨?_, nofun, fun d m heq => (ServerTask.callback.inj heq).1.symm⟩
    intro d hd
    cases k <;> cases hd <;> rfl
  -- without `close`, the one callback that drives the connection is `read`
  by_cases hread : (revents.pollin || revents.pollpri || revents.pollrdhup) = true
  · have hreading : w.Has c .reading := h.move hopen rfl
    refine hreading.advance_push hidle hl hof rfl ?_ (by decide)
    simp only [Channel.handleEvent, hhup, hread]
    cases revents.pollerr || revents.pollnval <;> cases revents.pollout <;>
      simp [ServerTask.drives, ServerTask.owner, Stage.task]
  · have hup : w.Has c .up := h.move hopen rfl
    refine hup.advance_push hidle hl hof rfl ?_ (by decide)
    simp only [Channel.handleEvent, hhup, hread]
    cases revents.pollerr || revents.pollnval <;> cases revents.pollout <;>
      simp [ServerTask.drives, ServerTask.owner, Stage.task]

theorem handleRead_advances (h : w.Has c .reading) (hl : l = (w.conns c).loop) (k : Kernel) :
    Passes (w.runTask l k (.callback c .read)) (w.Advances c) := by
  have hopen : (w.conns c).conn.Open := h.fits
  rw [runTask, assertInLoopThread_self hl]
  refine (ConnContext.handleRead_keeps k.readv h.tracks).bind ?_
  rintro ⟨x, n⟩ ⟨hk, _, _⟩
  have hopen' : x.conn.Open := ⟨by rw [hk.state]; exact hopen.1, hk.watched hopen.2⟩
  have hadvance : ∀ (st : Stage) (ts : List ServerTask), st.Fits x.conn → st.reached = 2 →
      st.place (w.conns c).loop = (w.conns c).loop → (∀ t ∈ ts, t.Of c) →
      ts.filter (ServerTask.drives c) = st.task c →
      w.Advances c (((w.store c x).record [.handler c .read]).push l ts) := by
    intro st ts hfits hreached hplace hof hts
    refine h.advance_store hidle hl st x hk.fd hk.others hk.tracks hk.addr (by simp [ServerEvent.conn])
      hfits ?_ ?_ hof hplace hts ?_
    · rw [hreached]
      rfl
    · rw [hreached]
      exact h.logged.handler (by decide) .read
    · rw [hreached]
      decide
  cases n with
  | message =>
    refine hadvance .up [.userCode] hopen' rfl rfl ?_ rfl
    intro t hmem
    rw [List.mem_singleton.mp hmem]
    exact of_userCode c
  | close =>
    exact hadvance .closing [.handleClose c] hopen' rfl rfl (Stage.closing.task_of c)
      (Stage.closing.filter_task c)
  | error =>
    have hup := hadvance .up [] hopen' rfl rfl (Stage.up.task_of c) rfl
    rw [push_nil] at hup
    exact hup

theorem connectEstablished_advances (h : w.Has c .queued) (hl : l = (w.conns c).loop) (k : Kernel) :
    Passes (w.runTask l k (.connectEstablished c)) (w.Advances c) := by
  obtain ⟨hstate, hidx⟩ := h.fits
  obtain ⟨p, hok, htracks, hsame⟩ :=
    ConnContext.connectEstablished_spec (x := w.context c) h.tracks hstate
  rw [runTask, assertInLoopThread_self hl, hok]
  have hwatched : ((w.context c).conn.channel.events.or kReadEvent).pollin = true := Bool.or_true _
  have hindex : Poller.nextIndex (w.conns c).conn.channel.index
      ((w.context c).conn.channel.events.or kReadEvent) = .kAdded := by
    rw [hidx]
    rfl
  have hev : ∀ e ∈ [ServerEvent.connectEstablished c, .connectionCallback c true], e.conn = c := by
    simp [ServerEvent.conn]
  refine h.advance_store hidle hl .up (((w.context c).setState .kConnected).withEvents p _) rfl
    hsame htracks rfl hev ⟨Or.inl rfl, hindex, hwatched⟩ rfl (h.logged.start hev rfl rfl) ?_ rfl rfl
    (by decide)
  intro t hmem
  rw [List.mem_singleton.mp hmem]
  exact of_userCode c

theorem handleClose_advances (h : w.Has c .closing) (hl : l = (w.conns c).loop) (k : Kernel) :
    Passes (w.runTask l k (.handleClose c)) (w.Advances c) := by
  obtain ⟨hstate, hidx, _⟩ := h.fits
  obtain ⟨p, hok, htracks, hsame⟩ :=
    ConnContext.handleClose_spec (x := w.context c) h.tracks hstate
  rw [runTask, assertInLoopThread_self hl, hok]
  have hindex : Poller.nextIndex (w.conns c).conn.channel.index kNoneEvent = .kDeleted := by
    rw [hidx]
    rfl
  have hev : ∀ e ∈ [ServerEvent.handleClose c, .connectionCallback c false], e.conn = c := by
    simp [ServerEvent.conn]
  refine h.advance_store hidle hl .closed
    (((w.context c).setState .kDisconnected).withEvents p kNoneEvent) rfl hsame htracks rfl hev
    ⟨Or.inl rfl, rfl, hindex⟩ rfl (h.logged.append (by decide) 2 hev rfl) ?_ rfl ?_ (by decide)
  · intro t hmem
    rcases List.mem_cons.mp hmem with rfl | hmem
    · exact of_userCode c
    · exact Stage.closed.task_of c t hmem
  · exact Stage.closed.filter_task c

theorem closeCallback_advances (h : w.Has c .closed) :
    w.Advances c (w.removeConnection l c) := by
  have hof := Stage.removing.task_of c _ List.mem_cons_self
  refine ⟨runInLoop_touches rfl hof, .removing, ⟨?_, ?_⟩, by decide⟩
  · have hremoving : w.Has c .removing := h.move h.fits rfl
    exact hremoving.runInLoop 0 _
  · exact runInLoop_holds hidle (decide_eq_true rfl)

/-- The entry is there, once. -/
theorem removeConnectionInLoop_advances (h : w.Has c .removing) (hl : l = 0) :
    Passes (w.removeConnectionInLoop l c) (w.Advances c) := by
  have hentry : w.connections (w.conns c).name = some c := h.entry
  have hev : ∀ e ∈ [ServerEvent.removeConnectionInLoop c 1], e.conn = c := by
    simp [ServerEvent.conn]
  rw [removeConnectionInLoop, assertInLoopThread_self hl]
  simp only [hentry, Option.isSome_some, if_true, decide_true, require_true]
  have hof := Stage.erased.task_of c _ List.mem_cons_self
  refine ⟨((setEntry_touches w c none).trans (record_touches hev)).trans
    (queueInLoop_touches rfl hof), .erased, ⟨?_, ?_⟩, by decide⟩
  · have hlog : Logged c (w.log ++ [.removeConnectionInLoop c 1]) 5 :=
      h.logged.append (by decide) 1 hev rfl
    exact ⟨h.fits, by rw [queueInLoop_pollers]; exact h.tracks, h.addr, h.name,
      Function.update_self _ _ _, hlog⟩
  · rw [queueInLoop_tasks]
    exact hidle.append (Stage.erased.filter_task c)

theorem connectDestroyed_advances (h : w.Has c .erased) (hl : l = (w.conns c).loop) (k : Kernel) :
    Passes (w.runTask l k (.connectDestroyed c)) (w.Advances c) := by
  obtain ⟨hstate, hmask, hidx⟩ := h.fits
  have hno : (w.context c).conn.state ≠ .kConnected := by
    rcases hstate with hstate | hstate <;> rw [context, hstate] <;> nofun
  have hok : (w.context c).connectDestroyed = .ok ((w.context c).setState .kDisconnected, false) :=
    if_neg hno
  have hev : ∀ e ∈ [ServerEvent.connectDestroyed c], e.conn = c := by simp [ServerEvent.conn]
  rw [runTask, assertInLoopThread_self hl, hok]
  refine h.advance_store hidle hl .destroying ((w.context c).setState .kDisconnected) rfl
    (fun _ _ => ⟨rfl, rfl⟩) h.tracks rfl hev ⟨Or.inl rfl, hmask, hidx⟩ rfl
    (h.logged.append (by decide) 1 hev rfl) ?_ rfl (Stage.destroying.filter_task c) (by decide)
  exact Stage.destroying.task_of c

theorem channelRemove_advances (h : w.Has c .destroying) (hl : l = (w.conns c).loop) (k : Kernel) :
    Passes (w.runTask l k (.channelRemove c)) (w.Advances c) := by
  obtain ⟨hstate, hmask, hidx⟩ := h.fits
  have hknown : (w.conns c).conn.channel.index ≠ .kNew := by
    rw [hidx]
    nofun
  obtain ⟨p, hok, htracks, hsame⟩ :=
    ConnContext.removeChannel_spec (x := w.context c) h.tracks hmask hknown
  have hev : ∀ e ∈ [ServerEvent.channelRemove c], e.conn = c := by simp [ServerEvent.conn]
  rw [runTask, assertInLoopThread_self hl, hok]
  have hgone : w.Advances c
      (((w.store c ((w.context c).forgotten p)).record [.channelRemove c]).push l []) :=
    h.advance_store hidle hl .gone ((w.context c).forgotten p) rfl hsame htracks rfl hev
      ⟨hstate, hmask, rfl⟩ rfl (h.logged.append (by decide) 1 hev rfl) (Stage.gone.task_of c) rfl rfl
      (by decide)
  rw [push_nil] at hgone
  exact hgone

end Tasks

-- ════════════════════════════════════════════════════════════════════════
-- Work that leaves the connection at its stage
-- ════════════════════════════════════════════════════════════════════════

/-- Work on a connection, at any stage after `connect_established`. -/
structure Serves (x y : ConnContext) : Prop where
  fits : ∀ st : Stage, 0 < st.reached → st.Fits x.conn → st.Fits y.conn
  tracks : y.poller.Tracks y.conn.channel
  fd : y.conn.channel.fd = x.conn.channel.fd
  addr : y.conn.channel.addr = x.conn.channel.addr
  others : Poller.SameExcept x.conn.channel.fd x.poller y.poller

theorem Serves.refl {x : ConnContext} (h : x.poller.Tracks x.conn.channel) : Serves x x :=
  ⟨fun _ _ hfits => hfits, h, rfl, rfl, fun _ _ => ⟨rfl, rfl⟩⟩

/-- Such work may have an effect while the connection is open only. -/
theorem Serves.of_keeps {x y : ConnContext} (hk : x.Keeps y)
    (hdown : ∀ index, x.conn.Down index → y.conn = x.conn) : Serves x y where
  fits st hst hfits := by
    have hopen : x.conn.Open → y.conn.Open := fun h =>
      ⟨by rw [hk.state]; exact h.1, hk.watched h.2⟩
    cases st with
    | queued => exact absurd hst (Nat.lt_irrefl 0)
    | polled revents => exact ⟨hopen hfits.1, hfits.2⟩
    | up | reading | closing => exact hopen hfits
    | closed | removing | erased | destroying =>
      have hd : x.conn.Down .kDeleted := hfits
      change y.conn.Down .kDeleted
      rw [hdown _ hd]
      exact hd
    | gone =>
      have hd : x.conn.Down .kNew := hfits
      change y.conn.Down .kNew
      rw [hdown _ hd]
      exact hd
  tracks := hk.tracks
  fd := hk.fd
  addr := hk.addr
  others := hk.others

theorem handleWrite_serves {x : ConnContext} (r : WriteResult)
    (h : x.poller.Tracks x.conn.channel) : Passes (x.handleWrite r) (Serves x) := by
  by_cases hnone : x.conn.channel.events = kNoneEvent
  · rw [ConnContext.handleWrite_of_none r hnone]
    exact .of_keeps (.refl h) fun _ _ => rfl
  · exact (ConnContext.handleWrite_keeps r h).imp fun y hk =>
      .of_keeps hk fun _ hd => absurd hd.2.1 hnone

theorem sendHere_serves {x : ConnContext} (data : List Byte) (r : WriteResult)
    (h : x.poller.Tracks x.conn.channel) : Passes (x.sendHere data r) (Serves x) := by
  rw [ConnContext.sendHere, ConnContext.send]
  by_cases hup : x.conn.state = .kConnected
  · rw [if_pos hup]
    refine (ConnContext.runFunctor_keeps r (.sendInLoop data) h).imp fun y hk => ?_
    refine .of_keeps hk fun index hd => ?_
    have hstate := hd.1
    rw [hup] at hstate
    exact hstate.elim nofun nofun
  · rw [if_neg hup]
    exact Serves.of_keeps (.refl h) fun _ _ => rfl

theorem sendBufferHere_eq (x : ConnContext) (buf : Buffer) (r : WriteResult) :
    (x.sendBufferHere buf r >>= fun res => pure res.1) = x.sendHere buf.readable r := by
  rw [ConnContext.sendBufferHere, ConnContext.sendHere]
  cases x.send buf.readable with
  | none => rfl
  | some f => cases hf : x.runFunctor r f <;> simp [hf, bind, Except.bind, pure, Except.pure]

theorem shutdownHere_serves {x : ConnContext} (h : x.poller.Tracks x.conn.channel) :
    Serves x x.shutdownHere := by
  have hsame : x.shutdownHere.conn = (x.setState .kDisconnecting).conn ∧
      x.shutdownHere.poller = x.poller := by
    rw [ConnContext.shutdownHere, ConnContext.shutdown]
    split
    · rename_i heq
      obtain ⟨hx, _⟩ := Prod.mk.inj heq
      obtain ⟨hc, hp, _⟩ := (x.setState .kDisconnecting).shutDownInLoop_eq
      rw [← hx]
      exact ⟨hc, hp⟩
    · rename_i heq
      obtain ⟨hx, _⟩ := Prod.mk.inj heq
      rw [← hx]
      exact ⟨rfl, rfl⟩
  obtain ⟨hconn, hpoller⟩ := hsame
  refine ⟨?_, ?_, ?_, ?_, ?_⟩
  · intro st hst hfits
    rw [hconn]
    cases st with
    | queued => exact absurd hst (Nat.lt_irrefl 0)
    | polled revents => exact ⟨⟨Or.inr rfl, hfits.1.2⟩, hfits.2⟩
    | up | reading | closing | closed | removing | erased | destroying | gone =>
      exact ⟨Or.inr rfl, hfits.2⟩
  · rw [hconn, hpoller]
    exact h
  · rw [hconn]
    rfl
  · rw [hconn]
    rfl
  · intro fd _
    rw [hpoller]
    exact ⟨rfl, rfl⟩

theorem userCall_serves {x : ConnContext} (u : UserCall) (h : x.poller.Tracks x.conn.channel) :
    Passes (u.apply x) (Serves x) := by
  cases u with
  | send message r => exact sendHere_serves message r h
  | sendBuffer buf r =>
    change Passes (x.sendBufferHere buf r >>= fun res => pure res.1) _
    rw [sendBufferHere_eq]
    exact sendHere_serves buf.readable r h
  | shutdown => exact shutdownHere_serves h
  | useInput buf => exact ⟨fun _ _ hfits => hfits, h, rfl, rfl, fun _ _ => ⟨rfl, rfl⟩⟩

/-- The connection stays at its stage; at most handlers are recorded. -/
theorem At.serve (hat : w.At c st) (hst : 0 < st.reached) {x : ConnContext}
    (hx : Serves (w.context c) x) {events : List ServerEvent} (hev : ∀ e ∈ events, e.conn = c)
    (hhandlers : events.filter (!·.isHandler) = []) :
    w.Advances c ((w.store c x).record events) := by
  have ht : Touches w ((w.store c x).record events) c :=
    (store_touches hx.fd hx.others).trans (record_touches hev)
  refine ⟨ht, st, ⟨?_, ?_⟩, hst⟩
  · exact hat.has.storeRecord (hx.fits st hst hat.has.fits) hx.tracks hx.addr rfl
      (hat.has.logged.append hst 0 hev hhandlers)
  · rw [ht.loop, record_tasks, store_tasks]
    exact hat.tasks

-- ════════════════════════════════════════════════════════════════════════
-- Every step
-- ════════════════════════════════════════════════════════════════════════

theorem Inv.advance (h : Inv w) (hc : c < w.accepted) (hadv : w.Advances c w') : Inv w' := by
  obtain ⟨ht, st, hat, hst⟩ := hadv
  exact h.touch hc ht hat hst

theorem Inv.settle (h : Inv w) {r : Except Fault ServerState} (hr : Passes r Inv) :
    Inv (w.settle r) := by
  cases r with
  | ok w' => exact hr
  | error f =>
    have hstage : ∀ c, c < w.accepted → ∃ st, ({ w with fault := some f } : ServerState).At c st := by
      intro c hc
      obtain ⟨st, hat⟩ := h.stage c hc
      exact ⟨st, ⟨hat.has.fits, hat.has.tracks, hat.has.addr, hat.has.name, hat.has.entry,
        hat.has.logged⟩, hat.tasks⟩
    exact ⟨hstage, h.later, h.fds, h.unknown, h.nextConnId, h.acceptor, h.handlers, h.pending,
      fun a hfault => hr a (Option.some.inj hfault)⟩

section Run

variable {t : ServerTask} {rest : List ServerTask} (hstack : (w.loops l).stack = t :: rest)
include hstack

theorem tasks_of_stack :
    w.tasks l = t :: (rest ++ (w.loops l).phase.tasks ++ (w.loops l).pending) := by
  rw [tasks, ServerLoop.tasks, hstack]
  rfl

omit hstack in
theorem setStack_tasks : (w.setStack l rest).tasks = Function.update w.tasks l
    (rest ++ (w.loops l).phase.tasks ++ (w.loops l).pending) :=
  setLoop_tasks _ _ _

/-- A task that drives no connection leaves the stack. -/
theorem Inv.pop (h : Inv w) (howner : t.owner = none) : Inv (w.setStack l rest) := by
  refine h.setLoop rfl (fun d => ?_) (fun u hu => Or.inl ?_) (h.pending l)
  · have hno : ¬t.drives d = true := by
      rw [ServerTask.drives, howner]
      exact Bool.false_ne_true
    rw [tasks_of_stack hstack, List.filter_cons_of_neg hno]
    rfl
  · rw [tasks_of_stack hstack]
    exact List.mem_cons_of_mem t hu

/-- A task that drives `c` is the only one, and tells the stage. -/
theorem Inv.pop_owner (h : Inv w) (howner : t.owner = some c) :
    c < w.accepted ∧ Touches w (w.setStack l rest) c ∧ ∃ st : Stage, st.task c = [t] ∧
      l = st.place (w.conns c).loop ∧ (w.setStack l rest).Has c st ∧
        Queues.Holds (w.setStack l rest).tasks (ServerTask.drives c) l [] := by
  have hdrives : t.drives c = true := decide_eq_true howner
  have htasks := tasks_of_stack hstack
  have hc : c < w.accepted := by
    by_contra hge
    have hnil := (h.later c (Nat.not_lt.mp hge)).1.filter_eq_nil l
    rw [htasks, List.filter_cons_of_pos hdrives] at hnil
    cases hnil
  obtain ⟨st, hat⟩ := h.stage c hc
  obtain ⟨htask, hl, hidle⟩ := hat.tasks.head htasks hdrives (st.length_task_le c)
  refine ⟨hc, pop_touches hstack fun d hd => ?_, st, htask, hl, hat.has.setLoop rfl, ?_⟩
  · rw [howner] at hd
    exact (Option.some.inj hd).symm
  · rw [setStack_tasks]
    exact hidle.nowhere l

/-- A handler that drives nothing finds its connection at a stage of its life. -/
theorem Inv.handler (h : Inv w) {k : ChannelCallback} (ht : t = .callback c k)
    (howner : t.owner = none) : c < w.accepted ∧ l = ((w.setStack l rest).conns c).loop ∧
      ∃ st : Stage, (w.setStack l rest).At c st ∧ 0 < st.reached := by
  subst ht
  obtain ⟨hc, hl, hhist⟩ := h.handlers l c k (by rw [tasks_of_stack hstack]; exact List.mem_cons_self)
  obtain ⟨st, hat⟩ := (h.pop hstack howner).stage c hc
  exact ⟨hc, hl.symm, st, hat, hat.has.logged.reached_pos hhist⟩

/-- **The task on top of the stack**, if it is a connection's, takes that connection
    further, and no assertion fails in it. -/
theorem Inv.run_advances (h : Inv w) (k : Kernel) (haccept : t ≠ .acceptorHandleRead)
    (huser : t ≠ .userCode) : ∃ c, c < w.accepted ∧ (∀ d, t.owner = some d → d = c) ∧
      Passes ((w.setStack l rest).runTask l k t) (w.Advances c) := by
  -- a task that drives its connection is the only one, and tells the stage
  have hdrive : ∀ c, t.owner = some c → (∀ st : Stage, st.task c = [t] →
      l = st.place (w.conns c).loop → (w.setStack l rest).Has c st →
      Queues.Holds (w.setStack l rest).tasks (ServerTask.drives c) l [] →
      Passes ((w.setStack l rest).runTask l k t) ((w.setStack l rest).Advances c)) →
      ∃ c, c < w.accepted ∧ (∀ d, t.owner = some d → d = c) ∧
        Passes ((w.setStack l rest).runTask l k t) (w.Advances c) := by
    intro c howner hrun
    obtain ⟨hc, ht, st, htask, hl, hhas, hidle⟩ := h.pop_owner hstack howner
    refine ⟨c, hc, fun d hd => ?_, (hrun st htask hl hhas hidle).imp fun w' hadv => hadv.after ht⟩
    rw [howner] at hd
    exact (Option.some.inj hd).symm
  cases t with
  | handleEvent c revents =>
    refine hdrive c rfl fun st htask hl hhas hidle => ?_
    obtain rfl : st = .polled revents := Stage.eq_ofTask htask
    exact handleEvent_advances hidle hhas hl
  | callback c kind =>
    cases kind with
    | close =>
      refine hdrive c rfl fun st htask hl hhas hidle => ?_
      cases st <;> cases htask
    | read =>
      refine hdrive c rfl fun st htask hl hhas hidle => ?_
      obtain rfl : st = .reading := Stage.eq_ofTask htask
      exact handleRead_advances hidle hhas hl k
    | error =>
      obtain ⟨hc, _, st, hat, hst⟩ := h.handler hstack rfl rfl
      have ht : Touches w (w.setStack l rest) c := pop_touches hstack nofun
      have hev : ∀ e ∈ [ServerEvent.handler c .error], e.conn = c := by simp [ServerEvent.conn]
      have hserve := hat.serve hst (.refl hat.has.tracks) hev rfl
      rw [store_context] at hserve
      exact ⟨c, hc, nofun, hserve.after ht⟩
    | write =>
      obtain ⟨hc, hl, st, hat, hst⟩ := h.handler hstack rfl rfl
      have ht : Touches w (w.setStack l rest) c := pop_touches hstack nofun
      have hev : ∀ e ∈ [ServerEvent.handler c .write], e.conn = c := by simp [ServerEvent.conn]
      refine ⟨c, hc, nofun, ?_⟩
      rw [runTask, assertInLoopThread_self hl]
      refine (handleWrite_serves k.write hat.has.tracks).bind fun x hx => ?_
      exact (hat.serve hst hx hev rfl).after ht
  | acceptorHandleRead => exact absurd rfl haccept
  | userCode => exact absurd rfl huser
  | connectEstablished c =>
    refine hdrive c rfl fun st htask hl hhas hidle => ?_
    obtain rfl : st = .queued := Stage.eq_ofTask htask
    exact connectEstablished_advances hidle hhas hl k
  | handleClose c =>
    refine hdrive c rfl fun st htask hl hhas hidle => ?_
    obtain rfl : st = .closing := Stage.eq_ofTask htask
    exact handleClose_advances hidle hhas hl k
  | closeCallback c =>
    refine hdrive c rfl fun st htask hl hhas hidle => ?_
    obtain rfl : st = .closed := Stage.eq_ofTask htask
    exact closeCallback_advances hidle hhas
  | removeConnectionInLoop c =>
    refine hdrive c rfl fun st htask hl hhas hidle => ?_
    obtain rfl : st = .removing := Stage.eq_ofTask htask
    exact removeConnectionInLoop_advances hidle hhas hl
  | connectDestroyed c =>
    refine hdrive c rfl fun st htask hl hhas hidle => ?_
    obtain rfl : st = .erased := Stage.eq_ofTask htask
    exact connectDestroyed_advances hidle hhas hl k
  | channelRemove c =>
    refine hdrive c rfl fun st htask hl hhas hidle => ?_
    obtain rfl : st = .destroying := Stage.eq_ofTask htask
    exact channelRemove_advances hidle hhas hl k

/-- Any task on top of the stack keeps the invariant. -/
theorem Inv.run (h : Inv w) (k : Kernel)
    (hfresh : ∀ fd, k.accept = some fd → ∀ c < w.accepted, (w.conns c).conn.channel.fd ≠ fd) :
    Passes ((w.setStack l rest).runTask l k t) Inv := by
  by_cases huser : t = .userCode
  · subst huser
    exact h.pop hstack rfl
  · by_cases haccept : t = .acceptorHandleRead
    · subst haccept
      have hl : l = 0 := h.acceptor l (by rw [tasks_of_stack hstack]; exact List.mem_cons_self)
      rw [runTask]
      cases hfd : k.accept with
      | none => exact h.pop hstack rfl
      | some fd => exact (h.pop hstack rfl).newConnection hl (hfresh fd hfd)
    · obtain ⟨c, hc, _, hadv⟩ := h.run_advances hstack k haccept huser
      exact hadv.imp fun w' hadv => h.advance hc hadv

end Run

/-- The first task of the phase goes to the empty stack. -/
theorem take_tail_tasks (phase : LoopPhase) :
    phase.tasks.take 1 ++ phase.tail.tasks = phase.tasks := by
  cases phase with
  | polling => rfl
  | handling ts | functors ts =>
    cases ts with
    | nil => rfl
    | cons t ts => rfl

/-- A call of user code on a connection it has been given. -/
theorem Inv.call (h : Inv w) (hc : c < w.accepted) (hknown : .connectionCallback c true ∈ w.log)
    (u : UserCall) : Passes ((u.apply (w.context c)).map (w.store c)) Inv := by
  obtain ⟨st, hat⟩ := h.stage c hc
  have hhist : .connectionCallback c true ∈ history c w.log :=
    List.mem_filter.mpr ⟨hknown, decide_eq_true rfl⟩
  have hst := hat.has.logged.reached_pos (List.ne_nil_of_mem hhist)
  have hserved := userCall_serves (x := w.context c) u hat.has.tracks
  cases hu : u.apply (w.context c) with
  | error f =>
    rw [hu] at hserved
    exact hserved
  | ok x =>
    rw [hu] at hserved
    have hserve : w.Advances c ((w.store c x).record []) := hat.serve hst hserved nofun rfl
    rw [record_nil] at hserve
    exact h.advance hc hserve

theorem Inv.userFunctor (h : Inv w) (l : Nat) : Inv (w.queueInLoop l .userCode) := by
  refine h.setLoop rfl (fun d => ?_) (fun t ht => ?_) ?_
  · rw [ServerLoop.tasks, tasks, ServerLoop.tasks]
    simp [ServerTask.drives, ServerTask.owner]
  · rw [ServerLoop.tasks, ← List.append_assoc] at ht
    exact (List.mem_append.mp ht).imp_right List.mem_singleton.mp
  · intro t ht
    rcases List.mem_append.mp ht with ht | ht
    · exact h.pending l t ht
    · rw [List.mem_singleton.mp ht]
      rfl

/-- **Every step** of a well-behaved kernel keeps the invariant. -/
theorem step_inv {s : ServerStep} (h : Inv w) (hstep : (system.restrict KernelBehaves).step w s w') :
    Inv w' := by
  obtain ⟨hkernel, henabled, rfl⟩ := hstep
  -- the moves of a loop's own control keep the list of its tasks
  have hcontrol : ∀ (l : Nat) (s : ServerLoop), s.poller = (w.loops l).poller →
      s.tasks = w.tasks l → (∀ t ∈ s.pending, t.isFunctor = true) → Inv (w.setLoop l s) := by
    intro l s hp htasks hpending
    refine h.setLoop hp (fun d => by rw [htasks]) (fun t ht => Or.inl ?_) hpending
    rw [← htasks]
    exact ht
  cases s with
  | poll l ready =>
    obtain ⟨_, _, hstack, hphase, _, hlisten⟩ := henabled
    exact Inv.poll hstack hphase h hlisten hkernel.1 hkernel.2
  | next l =>
    obtain ⟨_, _, hstack, _⟩ := henabled
    refine hcontrol l _ rfl ?_ (h.pending l)
    rw [tasks, ServerLoop.tasks, ServerLoop.tasks, hstack, take_tail_tasks]
    rfl
  | swap l =>
    obtain ⟨_, _, hstack, hphase⟩ := henabled
    refine hcontrol l _ rfl ?_ (List.forall_mem_nil _)
    rw [tasks, ServerLoop.tasks, ServerLoop.tasks, hstack, hphase]
    exact List.append_nil _
  | again l =>
    obtain ⟨_, _, hstack, hphase⟩ := henabled
    refine hcontrol l _ rfl ?_ (h.pending l)
    rw [tasks, ServerLoop.tasks, ServerLoop.tasks, hstack, hphase]
    rfl
  | run l k =>
    obtain ⟨_, _, hstack, _⟩ := henabled
    cases hs : (w.loops l).stack with
    | nil => exact absurd hs hstack
    | cons t rest =>
      have hrun : w.perform (.run l k) = w.settle ((w.setStack l rest).runTask l k t) := by
        simp only [perform, hs]
      exact hrun ▸ h.settle (h.run hs k hkernel)
  | call l c u =>
    obtain ⟨_, _, _, hc, _, hknown⟩ := henabled
    exact h.settle (h.call hc hknown u)
  | userReturn l =>
    obtain ⟨_, _, hhead⟩ := henabled
    cases hs : (w.loops l).stack with
    | nil =>
      rw [hs] at hhead
      cases hhead
    | cons t rest =>
      rw [hs] at hhead
      cases hhead
      change Inv (w.setStack l (w.loops l).stack.tail)
      rw [hs]
      exact h.pop hs rfl
  | userFunctor l => exact h.userFunctor l

/-- What the calls made on a connection look like in a run. -/
structure OrderlyLife (c : Nat) (log : List ServerEvent) : Prop where
  /-- `connect_established` runs at most once, before anything else. -/
  established_once : log.count (.connectEstablished c) ≤ 1
  established_first : ∀ pre e post, log = pre ++ e :: post → e.conn = c →
    e ≠ .connectEstablished c → .connectEstablished c ∈ pre
  /-- The connection callback runs at most once for up and at most once for down. -/
  up_once : log.count (.connectionCallback c true) ≤ 1
  down_once : log.count (.connectionCallback c false) ≤ 1
  close_once : log.count (.handleClose c) ≤ 1
  /-- There is exactly one entry to erase. -/
  erased_one : ∀ n, .removeConnectionInLoop c n ∈ log → n = 1
  erased_once : log.count (.removeConnectionInLoop c 1) ≤ 1
  /-- `connect_destroyed` runs at most once, after `handle_close` and the erasure. -/
  destroyed_once : log.count (.connectDestroyed c) ≤ 1
  destroyed_after : ∀ pre post, log = pre ++ .connectDestroyed c :: post →
    .handleClose c ∈ pre ∧ .connectionCallback c false ∈ pre ∧ .removeConnectionInLoop c 1 ∈ pre
  removed_once : log.count (.channelRemove c) ≤ 1

theorem lifeCycle_nodup (c : Nat) : (lifeCycle c).Nodup := by
  simp [lifeCycle]

/-- In a list without repetitions, what stands before an element is known. -/
theorem take_of_append {α : Type} {pre post xs : List α} {a : α} {n : Nat}
    (h : pre ++ a :: post = xs) (hn : xs[n]? = some a) (hnodup : xs.Nodup) : pre = xs.take n := by
  have hpre : xs[pre.length]? = some a := by
    rw [← h, List.getElem?_append_right le_rfl, Nat.sub_self]
    rfl
  have hlen : pre.length < xs.length := by
    rw [← h, List.length_append, List.length_cons]
    omega
  have heq : pre.length = n := (List.getElem?_inj hlen hnodup).mp (hpre.trans hn.symm)
  rw [← heq, ← h, List.take_left]

/-- Events that are no handler's are counted among the milestones. -/
theorem count_milestones {log : List ServerEvent} {e : ServerEvent} (hconn : e.conn = c)
    (hhandler : e.isHandler = false) : (milestones c log).count e = log.count e := by
  simp [milestones, history, List.count_filter, hconn, hhandler]

theorem orderly_of_logged {log : List ServerEvent} {n : Nat} (h : Logged c log n) :
    OrderlyLife c log := by
  have hprefix : milestones c log <+: lifeCycle c := by
    rw [h.milestones]
    exact List.take_prefix n _
  have honce : ∀ e : ServerEvent, e.conn = c → e.isHandler = false → log.count e ≤ 1 := by
    intro e hconn hhandler
    calc log.count e = (milestones c log).count e := (count_milestones hconn hhandler).symm
      _ ≤ (lifeCycle c).count e := hprefix.sublist.count_le e
      _ ≤ 1 := List.nodup_iff_count_le_one.mp (lifeCycle_nodup c) e
  refine ⟨honce _ rfl rfl, ?_, honce _ rfl rfl, honce _ rfl rfl, honce _ rfl rfl, ?_,
    honce _ rfl rfl, honce _ rfl rfl, ?_, honce _ rfl rfl⟩
  · intro pre e post hlog hconn hne
    have hhist : history c log = history c pre ++ e :: history c post := by
      have howner : decide (e.conn = c) = true := decide_eq_true hconn
      rw [hlog, history_append]
      exact congrArg _ (List.filter_cons_of_pos howner)
    cases hpre : history c pre with
    | nil =>
      rw [hpre] at hhist
      exact absurd (h.first e (by rw [hhist]; rfl)) hne
    | cons f rest =>
      rw [hpre] at hhist
      have hf := h.first f (by rw [hhist]; rfl)
      rw [← hf]
      exact List.mem_of_mem_filter (hpre ▸ List.mem_cons_self)
  · intro m hlog
    have hcycle : .removeConnectionInLoop c m ∈ lifeCycle c := by
      refine hprefix.subset (List.mem_filter.mpr ⟨List.mem_filter.mpr ⟨hlog, ?_⟩, rfl⟩)
      exact decide_eq_true rfl
    simpa [lifeCycle] using hcycle
  · intro pre post hlog
    obtain ⟨tail, htail⟩ := hprefix
    have hcut : milestones c pre ++ .connectDestroyed c :: (milestones c post ++ tail) =
        lifeCycle c := by
      rw [← htail, hlog, milestones_append]
      simp [milestones, history, ServerEvent.conn, ServerEvent.isHandler]
    have hpre := take_of_append (n := 5) hcut rfl (lifeCycle_nodup c)
    have hsub : ∀ e ∈ milestones c pre, e ∈ pre := fun e he =>
      List.mem_of_mem_filter (List.mem_of_mem_filter he)
    rw [hpre] at hsub
    refine ⟨hsub _ ?_, hsub _ ?_, hsub _ ?_⟩ <;> simp [lifeCycle]

theorem reachable_inv (h : (system.restrict KernelBehaves).Reachable w) : Inv w := by
  refine h.invariant ?_ fun _ _ _ hw hs => step_inv hw hs
  rintro _ ⟨name, numThreads, rfl⟩
  exact start_inv name numThreads

theorem Inv.logged (h : Inv w) (c : Nat) : ∃ n, Logged c w.log n := by
  by_cases hc : c < w.accepted
  · obtain ⟨st, hat⟩ := h.stage c hc
    exact ⟨_, hat.has.logged⟩
  · have hnil := (h.later c (Nat.not_lt.mp hc)).2
    refine ⟨0, ?_, ?_⟩
    · rw [milestones, hnil]
      rfl
    · intro e he
      rw [hnil] at he
      cases he

/-- **The life of a connection.** In every state that any number of loops reach in
    any interleaving, no assertion has failed and every connection has lived
    in order. -/
theorem connection_life_cycle (h : (system.restrict KernelBehaves).Reachable w) :
    (∀ a, w.fault ≠ some (.assertion a)) ∧ ∀ c, OrderlyLife c w.log := by
  have hinv := reachable_inv h
  refine ⟨hinv.asserted, fun c => ?_⟩
  obtain ⟨n, hlogged⟩ := hinv.logged c
  exact orderly_of_logged hlogged

/-- One connection on a pool of one thread: accepted, shut down by the user, closed
    by its peer, erased and destroyed. -/
theorem connection_life_cycle_whole :
    ∃ w : ServerState, (system.restrict KernelBehaves).Reachable w ∧
      milestones 0 w.log = lifeCycle 0 ∧
      (∀ a, w.fault ≠ some (.assertion a)) ∧ ∀ c, OrderlyLife c w.log := by
  -- every read finds the end of the stream
  let k : Kernel := ⟨.delivered [], .wrote 0, none⟩
  let tr : List ServerStep := [.poll 0 [.listening], .next 0, .run 0 { k with accept := some 7 },
    .poll 1 [.other], .next 1, .userReturn 1, .swap 1, .next 1, .run 1 k, .call 1 0 .shutdown,
    .userReturn 1, .again 1,
    .poll 1 [.registered 7 { pollin := true, pollhup := true, pollout := true }], .next 1, .run 1 k,
    .run 1 k, .run 1 k, .userReturn 1, .run 1 k, .run 1 k, .swap 0, .next 0, .run 0 k, .swap 1,
    .next 1, .run 1 k, .run 1 k]
  have hrun : (system.restrict KernelBehaves).Run (start "echo" 1) tr _ :=
    .of_allowed_restrict (by decide +kernel)
  refine ⟨_, ⟨_, _, ⟨"echo", 1, rfl⟩, hrun⟩, ?_, connection_life_cycle ⟨_, _, ⟨"echo", 1, rfl⟩, hrun⟩⟩
  decide +kernel

end ServerState

end DamnWebServer
