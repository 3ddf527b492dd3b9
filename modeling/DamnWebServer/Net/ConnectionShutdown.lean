import DamnWebServer.Net.ConnectionOutput

/-!
# Shutdown across threads

`send` and `shutdown` of one connected connection, called by the loop's thread and
by any number of other threads. A call of another thread takes two steps, the access
to `state_` and the push that `run_in_loop` makes under the loop's mutex; the loop
runs the functors in the order of the pushes. A call in the loop's thread is one step:
meanwhile the other threads can only push, or move `state_` from `k_connected` to
`k_disconnecting`, which might as well come before or after it.

The half-close looks at the write interest of the channel only. Payloads that are
still in the functor queue are not seen there: they are safe from the functor of a
later `shutdown()`, which waits in the same queue, but not from a `shutdown()` made
by the loop's thread, nor from `handle_write` once `state_` is `k_disconnecting`.
-/

namespace DamnWebServer

/-- The bytes a functor hands to the connection. -/
def ConnFunctor.payload : ConnFunctor → List Byte
  | .sendInLoop data => data
  | .shutDownInLoop => []

/-- A connection with the functors on their way to it. Calls that leave something to
    the loop are numbered. `shutdownCalled`, `promised` and `handed` only record what
    has happened. -/
structure SharedConn where
  ctx : ConnContext
  /-- The functors of this connection that the loop has still to run, oldest first. -/
  queue : List (Nat × ConnFunctor)
  /-- What each foreign thread is about to push. -/
  foreign : Nat → Option (Nat × ConnFunctor)
  calls : Nat
  shutdownCalled : Bool
  /-- The sends that saw `k_connected` and returned before any `shutdown()` was called. -/
  promised : List (Nat × List Byte)
  /-- The calls of `send_in_loop` so far. -/
  handed : List (Nat × List Byte)

inductive SharedCall where
  /-- `send(message)` in the loop's thread. -/
  | send (data : List Byte) (r : WriteResult)
  /-- `shutdown()` in the loop's thread. -/
  | shutdown
  | handleWrite (r : WriteResult)
  /-- The loop runs the oldest functor. -/
  | runFunctor (r : WriteResult)
  /-- `send(message)` in thread `t` up to its test. -/
  | foreignSend (t : Nat) (data : List Byte)
  /-- `shutdown()` in thread `t` up to its exchange. -/
  | foreignShutdown (t : Nat)
  /-- The push of the call that thread `t` is in. -/
  | foreignPush (t : Nat)
  deriving DecidableEq, Repr

namespace SharedConn

/-- The send that a functor stands for. -/
def sentBy (q : Nat × ConnFunctor) : List (Nat × List Byte) :=
  match q.2 with
  | .sendInLoop data => [(q.1, data)]
  | .shutDownInLoop => []

/-- A send returns. -/
def promise (s : SharedConn) (q : Nat × ConnFunctor) : SharedConn :=
  { s with promised := if s.shutdownCalled then s.promised else s.promised ++ sentBy q }

/-- A thread has the functor `f` to push, if any. -/
def announce (s : SharedConn) (t : Nat) : Option ConnFunctor → SharedConn
  | some f => { s with foreign := Function.update s.foreign t (some (s.calls, f)), calls := s.calls + 1 }
  | none => s

def next (s : SharedConn) : SharedCall → Except Fault SharedConn
  | .send data r =>
    match s.ctx.send data with
    | some f => do
      let ctx ← s.ctx.runFunctor r f
      return promise { s with
        ctx := ctx, calls := s.calls + 1, handed := s.handed ++ sentBy (s.calls, f) } (s.calls, f)
    | none => .ok s
  | .shutdown => .ok { s with ctx := s.ctx.shutdownHere, shutdownCalled := true }
  | .handleWrite r => do
    let ctx ← s.ctx.handleWrite r
    return { s with ctx := ctx }
  | .runFunctor r =>
    match s.queue with
    | q :: rest => do
      let ctx ← s.ctx.runFunctor r q.2
      return { s with ctx := ctx, queue := rest, handed := s.handed ++ sentBy q }
    | [] => .ok s
  | .foreignSend t data => .ok (s.announce t (s.ctx.send data))
  | .foreignShutdown t =>
    .ok ({ s with ctx := s.ctx.shutdown.1, shutdownCalled := true }.announce t s.ctx.shutdown.2)
  | .foreignPush t =>
    match s.foreign t with
    | some q => .ok (promise { s with
        queue := s.queue ++ [q], foreign := Function.update s.foreign t none } q)
    | none => .ok s

/-- The result `::write` may give to a request for `len` bytes: no `EPIPE` and no
    `ECONNRESET` before the half-close. -/
def Writes (s : SharedConn) (len : Nat) (r : WriteResult) : Prop :=
  r.Fits len ∧ (s.ctx.sock.shutWrCalls = 0 → r.Open)

def Admissible (s : SharedConn) : SharedCall → Prop
  | .send data r => s.Writes data.length r
  | .shutdown => True
  | .handleWrite r => s.Writes s.ctx.conn.outputBuffer.readableBytes r
  | .runFunctor r => ∃ q rest, s.queue = q :: rest ∧ s.Writes q.2.payload.length r
  | .foreignSend t _ | .foreignShutdown t => s.foreign t = none
  | .foreignPush t => s.foreign t ≠ none

/-- A connection right after `connect_established`, nothing called yet. -/
def Started (s : SharedConn) : Prop :=
  OutputState.system.init ⟨s.ctx, []⟩ ∧ s.queue = [] ∧ (∀ t, s.foreign t = none) ∧ s.calls = 0 ∧
    s.shutdownCalled = false ∧ s.promised = [] ∧ s.handed = []

def system : Transition.System SharedConn SharedCall where
  init := Started
  step s c t := s.Admissible c ∧ s.next c = .ok t

/-- The bytes of the send are in the socket, behind those of the sends that were
    handed over before it. -/
def WrittenInFull (s : SharedConn) (p : Nat × List Byte) : Prop :=
  ∃ before after, s.handed = before ++ p :: after ∧
    before.flatMap Prod.snd ++ p.2 <+: s.ctx.sock.written

/-- Once `::shutdown(SHUT_WR)` is issued, all that was promised is written. -/
def Graceful (s : SharedConn) : Prop :=
  s.ctx.sock.shutWrCalls ≠ 0 → ∀ p ∈ s.promised, s.WrittenInFull p

/-- A payload that `send` has returned for is still in the functor queue. -/
def Waiting (s : SharedConn) : Prop :=
  ∃ p ∈ s.promised, (p.1, ConnFunctor.sendInLoop p.2) ∈ s.queue

/-- The two ways to `::shutdown(SHUT_WR)` that pass the functor queue by: the loop's
    thread calls `shutdown()` with nothing in the buffer, and `handle_write` empties the
    buffer after `shutdown()` was called. -/
def HalfCloses (s : SharedConn) : SharedCall → Prop
  | .shutdown => s.ctx.conn.state = .kConnected ∧ s.ctx.isWriting = false
  | .handleWrite (.wrote n) => s.ctx.isWriting = true ∧ s.ctx.conn.state = .kDisconnecting ∧
      s.ctx.conn.outputBuffer.readableBytes ≤ n
  | .handleWrite (.error _) | .send _ _ | .runFunctor _ | .foreignSend _ _ | .foreignShutdown _
  | .foreignPush _ => False

/-- The queue is not passed by while a payload waits in it. -/
def Orderly (s : SharedConn) (c : SharedCall) : Prop := s.HalfCloses c → ¬ s.Waiting

-- ════════════════════════════════════════════════════════════════════════
-- The invariant
-- ════════════════════════════════════════════════════════════════════════

variable {s t : SharedConn}

/-- The send of `p` is queued, with no half-close before it. -/
def Ahead (queue : List (Nat × ConnFunctor)) (p : Nat × List Byte) : Prop :=
  ∃ pre post, queue = pre ++ (p.1, .sendInLoop p.2) :: post ∧ ∀ q ∈ pre, q.2 ≠ .shutDownInLoop

/-- While the socket is open in both directions. -/
structure Before (s : SharedConn) : Prop where
  streaming : s.ctx.Streaming
  stream : s.ctx.stream = s.handed.flatMap Prod.snd
  shutWrCalls : s.ctx.sock.shutWrCalls = 0
  state : s.ctx.conn.state = if s.shutdownCalled then .kDisconnecting else .kConnected
  queue_early : s.shutdownCalled = false → ∀ q ∈ s.queue, q.2 ≠ .shutDownInLoop
  foreign_early : s.shutdownCalled = false → ∀ t q, s.foreign t = some q → q.2 ≠ .shutDownInLoop
  ahead : ∀ p ∈ s.promised, p ∈ s.handed ∨ Ahead s.queue p

/-- After the half-close. -/
structure After (s : SharedConn) : Prop where
  called : s.shutdownCalled = true
  written : ∀ p ∈ s.promised, s.WrittenInFull p

def Inv (s : SharedConn) : Prop := s.Before ∨ s.After

theorem Ahead.append {queue : List (Nat × ConnFunctor)} {p : Nat × List Byte} (h : Ahead queue p)
    (q : Nat × ConnFunctor) : Ahead (queue ++ [q]) p := by
  obtain ⟨pre, post, rfl, hpre⟩ := h
  exact ⟨pre, post ++ [q], by simp, hpre⟩

/-- The oldest functor is the send itself, or another send. -/
theorem Ahead.pop {q : Nat × ConnFunctor} {rest : List (Nat × ConnFunctor)} {p : Nat × List Byte}
    (h : Ahead (q :: rest) p) : p ∈ sentBy q ∨ q.2 ≠ .shutDownInLoop ∧ Ahead rest p := by
  obtain ⟨pre, post, heq, hpre⟩ := h
  cases pre with
  | nil =>
    obtain ⟨rfl, rfl⟩ := List.cons.inj heq
    exact Or.inl List.mem_cons_self
  | cons a pre =>
    obtain ⟨rfl, rfl⟩ := List.cons.inj heq
    exact Or.inr ⟨hpre q List.mem_cons_self, pre, post, rfl,
      fun a ha => hpre a (List.mem_cons_of_mem q ha)⟩

theorem Ahead.waiting {p : Nat × List Byte} (h : Ahead s.queue p) (hp : p ∈ s.promised) :
    s.Waiting := by
  obtain ⟨pre, post, heq, _⟩ := h
  refine ⟨p, hp, ?_⟩
  rw [heq]
  exact List.mem_append_right pre List.mem_cons_self

/-- With nothing in the buffer, whatever was handed over is written. -/
theorem writtenInFull (hstream : s.ctx.stream = s.handed.flatMap Prod.snd)
    (hempty : s.ctx.conn.outputBuffer.readable = []) {p : Nat × List Byte} (hp : p ∈ s.handed) :
    s.WrittenInFull p := by
  have hwritten : s.ctx.sock.written = s.handed.flatMap Prod.snd := by
    rw [← hstream, ConnContext.stream, hempty, List.append_nil]
  obtain ⟨before, after, heq⟩ := List.append_of_mem hp
  refine ⟨before, after, heq, ?_⟩
  rw [hwritten, heq, List.flatMap_append, List.flatMap_cons, ← List.append_assoc]
  exact List.prefix_append _ _

theorem Before.handed_of_not_waiting (h : s.Before) (hw : ¬ s.Waiting) :
    ∀ p ∈ s.promised, p ∈ s.handed := by
  intro p hp
  rcases h.ahead p hp with hhanded | hahead
  · exact hhanded
  · exact absurd (hahead.waiting hp) hw

theorem WrittenInFull.mono {p : Nat × List Byte} (h : s.WrittenInFull p)
    (hhanded : s.handed <+: t.handed) (hwritten : s.ctx.sock.written <+: t.ctx.sock.written) :
    t.WrittenInFull p := by
  obtain ⟨before, after, heq, hpre⟩ := h
  obtain ⟨more, hmore⟩ := hhanded
  refine ⟨before, after ++ more, ?_, hpre.trans hwritten⟩
  rw [← hmore, heq, List.append_assoc, List.cons_append]

-- ════════════════════════════════════════════════════════════════════════
-- After the half-close
-- ════════════════════════════════════════════════════════════════════════

theorem runFunctor_written {x y : ConnContext} {r : WriteResult} {f : ConnFunctor}
    (hok : x.runFunctor r f = .ok y) : x.sock.written <+: y.sock.written := by
  cases f with
  | sendInLoop data => exact ConnContext.sendInLoop_written hok
  | shutDownInLoop =>
    cases hok
    rw [ConnContext.shutDownInLoop_written]

theorem shutdownHere_written (x : ConnContext) : x.shutdownHere.sock.written = x.sock.written := by
  unfold ConnContext.shutdownHere ConnContext.shutdown
  by_cases hconn : x.conn.state = .kConnected
  · rw [if_pos hconn]
    exact ConnContext.shutDownInLoop_written _
  · rw [if_neg hconn]
    rfl

/-- No call takes anything back, and none adds to the promises after `shutdown()`. -/
theorem After.of_grown (h : s.After) (hcalled : t.shutdownCalled = s.shutdownCalled ∨
      t.shutdownCalled = true) (hpromised : t.promised = s.promised)
    (hhanded : s.handed <+: t.handed) (hwritten : s.ctx.sock.written <+: t.ctx.sock.written) :
    t.After := by
  constructor
  · rcases hcalled with hsame | htrue
    · rw [hsame, h.called]
    · exact htrue
  · intro p hp
    rw [hpromised] at hp
    exact (h.written p hp).mono hhanded hwritten

theorem After.step (h : s.After) {c : SharedCall} (hok : s.next c = .ok t) : t.After := by
  cases c with
  | send data r =>
    simp only [next] at hok
    split at hok
    · obtain ⟨ctx, hrun, hend⟩ := bind_eq_ok hok
      cases hend
      exact h.of_grown (Or.inl rfl) (if_pos h.called) (List.prefix_append _ _)
        (runFunctor_written hrun)
    · cases hok
      exact h
  | shutdown =>
    cases hok
    refine h.of_grown (Or.inr rfl) rfl List.prefix_rfl ?_
    rw [shutdownHere_written]
  | handleWrite r =>
    obtain ⟨ctx, hrun, hend⟩ := bind_eq_ok hok
    cases hend
    exact h.of_grown (Or.inl rfl) rfl List.prefix_rfl (ConnContext.handleWrite_written hrun)
  | runFunctor r =>
    simp only [next] at hok
    split at hok
    · obtain ⟨ctx, hrun, hend⟩ := bind_eq_ok hok
      cases hend
      exact h.of_grown (Or.inl rfl) rfl (List.prefix_append _ _) (runFunctor_written hrun)
    · cases hok
      exact h
  | foreignSend thread data =>
    cases hok
    cases s.ctx.send data with
    | none => exact h
    | some f => exact h.of_grown (Or.inl rfl) rfl List.prefix_rfl List.prefix_rfl
  | foreignShutdown thread =>
    cases hok
    cases s.ctx.shutdown.2 with
    | none => exact h.of_grown (Or.inr rfl) rfl List.prefix_rfl List.prefix_rfl
    | some f => exact h.of_grown (Or.inr rfl) rfl List.prefix_rfl List.prefix_rfl
  | foreignPush thread =>
    simp only [next] at hok
    split at hok
    · cases hok
      exact h.of_grown (Or.inl rfl) (if_pos h.called) List.prefix_rfl List.prefix_rfl
    · cases hok
      exact h

-- ════════════════════════════════════════════════════════════════════════
-- Before the half-close
-- ════════════════════════════════════════════════════════════════════════

theorem Before.of_started (h : s.Started) : s.Before := by
  obtain ⟨hinit, hqueue, hforeign, _, hcalled, hpromised, hhanded⟩ := h
  have hinv := OutputState.init_inv hinit
  obtain ⟨hstate, hshut⟩ := hinv.up rfl
  refine ⟨hinv.streaming, ?_, hshut, ?_, ?_, ?_, ?_⟩
  · rw [hhanded]
    exact hinv.stream
  · rw [hcalled]
    exact hstate
  · intro _ q hq
    rw [hqueue] at hq
    cases hq
  · intro _ t q hq
    rw [hforeign t] at hq
    cases hq
  · intro p hp
    rw [hpromised] at hp
    cases hp

theorem Before.connected_iff (h : s.Before) :
    s.ctx.conn.state = .kConnected ↔ s.shutdownCalled = false := by
  rw [h.state]
  cases s.shutdownCalled <;> simp

theorem Before.not_disconnected (h : s.Before) : s.ctx.conn.state ≠ .kDisconnected := by
  rw [h.state]
  cases s.shutdownCalled <;> simp

/-- The loop hands a send over. What it was queued behind does not matter. -/
theorem Before.hand (h : s.Before) {i : Nat} {data : List Byte} {r : WriteResult} {ctx : ConnContext}
    (hw : s.Writes data.length r) (hok : s.ctx.sendInLoop data r = .ok ctx) {rest}
    (hrest : rest = s.queue ∨ s.queue = (i, .sendInLoop data) :: rest) {calls : Nat} :
    ({ s with
        ctx := ctx, queue := rest, calls := calls
        handed := s.handed ++ [(i, data)] } : SharedConn).Before := by
  have hsent := ConnContext.sendInLoop_returned h.streaming h.not_disconnected hw.1
    (hw.2 h.shutWrCalls) hok
  refine ⟨hsent.streaming, ?_, hsent.shutWrCalls.trans h.shutWrCalls, hsent.state.trans h.state,
    ?_, h.foreign_early, ?_⟩
  · change ctx.stream = (s.handed ++ [(i, data)]).flatMap Prod.snd
    rw [hsent.stream, h.stream, List.flatMap_append, List.flatMap_singleton]
  · intro hcalled q hq
    rcases hrest with rfl | hcons
    · exact h.queue_early hcalled q hq
    · exact h.queue_early hcalled q (hcons ▸ List.mem_cons_of_mem _ hq)
  · intro p hp
    rcases h.ahead p hp with hhanded | hahead
    · exact Or.inl (List.mem_append_left _ hhanded)
    · rcases hrest with rfl | hcons
      · exact Or.inr hahead
      · rw [hcons] at hahead
        rcases hahead.pop with hthis | ⟨_, hahead⟩
        · exact Or.inl (List.mem_append_right _ hthis)
        · exact Or.inr hahead

/-- A send that returns is promised: it was handed over or it is queued. -/
theorem Before.promise (h : s.Before) {q : Nat × ConnFunctor}
    (hq : s.shutdownCalled = false → ∀ p ∈ sentBy q, p ∈ s.handed ∨ Ahead s.queue p) :
    (s.promise q).Before := by
  refine ⟨h.streaming, h.stream, h.shutWrCalls, h.state, h.queue_early, h.foreign_early, ?_⟩
  intro p hp
  simp only [SharedConn.promise] at hp
  split at hp
  · exact h.ahead p hp
  · rename_i hcalled
    rcases List.mem_append.mp hp with hold | hnew
    · exact h.ahead p hold
    · exact hq (Bool.eq_false_iff.mpr hcalled) p hnew

/-- `shut_down_in_loop` with every promised send handed over. -/
theorem Before.shutDownInLoop (h : s.Before) (hcalled : s.shutdownCalled = true)
    (hall : s.ctx.isWriting = false → ∀ p ∈ s.promised, p ∈ s.handed) :
    ({ s with ctx := s.ctx.shutDownInLoop } : SharedConn).Inv := by
  cases hw : s.ctx.isWriting with
  | true =>
    have hsame : s.ctx.shutDownInLoop = s.ctx := by
      rw [ConnContext.shutDownInLoop, hw]
      rfl
    rw [hsame]
    exact Or.inl h
  | false =>
    have hempty : s.ctx.conn.outputBuffer.readable = [] := by
      by_contra hne
      rw [h.streaming.writing_iff.mpr hne] at hw
      cases hw
    refine Or.inr ⟨hcalled, ?_⟩
    intro p hp
    refine (writtenInFull h.stream hempty (hall hw p hp)).mono List.prefix_rfl ?_
    change s.ctx.sock.written <+: s.ctx.shutDownInLoop.sock.written
    rw [ConnContext.shutDownInLoop_written]

/-- The exchange in `shutdown()`. -/
theorem Before.exchange (h : s.Before) :
    ({ s with ctx := s.ctx.setState .kDisconnecting, shutdownCalled := true } : SharedConn).Before :=
  ⟨h.streaming.of_state _, h.stream, h.shutWrCalls, rfl, nofun, nofun, h.ahead⟩

theorem Before.shutdown_step (h : s.Before) (horderly : s.Orderly .shutdown) :
    ({ s with ctx := s.ctx.shutdownHere, shutdownCalled := true } : SharedConn).Inv := by
  by_cases hconn : s.ctx.conn.state = .kConnected
  · have hhere : s.ctx.shutdownHere = (s.ctx.setState .kDisconnecting).shutDownInLoop := by
      rw [ConnContext.shutdownHere, ConnContext.shutdown, if_pos hconn]
    rw [hhere]
    refine h.exchange.shutDownInLoop rfl ?_
    exact fun hidle => h.handed_of_not_waiting (horderly ⟨hconn, hidle⟩)
  · have hhere : s.ctx.shutdownHere = s.ctx.setState .kDisconnecting := by
      rw [ConnContext.shutdownHere, ConnContext.shutdown, if_neg hconn]
    rw [hhere]
    exact Or.inl h.exchange

theorem Before.handleWrite_step (h : s.Before) {r : WriteResult} {ctx : ConnContext}
    (horderly : s.Orderly (.handleWrite r)) (hok : s.ctx.handleWrite r = .ok ctx) :
    ({ s with ctx := ctx } : SharedConn).Inv := by
  obtain ⟨y, hy, hys, hstream, hstate, hshut⟩ := ConnContext.handleWrite_spec h.streaming r
  cases hy.symm.trans hok
  rcases hshut with hsame | ⟨_, hwr, hdisc, hnil, n, rfl, hn⟩
  · exact Or.inl ⟨hys, hstream.trans h.stream, hsame.trans h.shutWrCalls, hstate.trans h.state,
      h.queue_early, h.foreign_early, h.ahead⟩
  · have hcalled : s.shutdownCalled = true := by
      by_contra hno
      rw [h.connected_iff.mpr (Bool.eq_false_iff.mpr hno)] at hdisc
      cases hdisc
    refine Or.inr ⟨hcalled, ?_⟩
    intro p hp
    have hhanded := h.handed_of_not_waiting (horderly ⟨hwr, hdisc, hn⟩) p hp
    exact writtenInFull (hstream.trans h.stream) hnil hhanded

theorem Before.runFunctor_step (h : s.Before) {q : Nat × ConnFunctor}
    {rest : List (Nat × ConnFunctor)} {r : WriteResult} {ctx : ConnContext}
    (hqueue : s.queue = q :: rest) (hw : s.Writes q.2.payload.length r)
    (hok : s.ctx.runFunctor r q.2 = .ok ctx) :
    ({ s with ctx := ctx, queue := rest, handed := s.handed ++ sentBy q } : SharedConn).Inv := by
  obtain ⟨i, f⟩ := q
  cases f with
  | sendInLoop data => exact Or.inl (h.hand hw hok (Or.inr hqueue))
  | shutDownInLoop =>
    -- the sends that were promised stood before it in the queue
    have hcalled : s.shutdownCalled = true := by
      by_contra hno
      exact h.queue_early (Bool.eq_false_iff.mpr hno) (i, .shutDownInLoop)
        (hqueue ▸ List.mem_cons_self) rfl
    have hall : ∀ p ∈ s.promised, p ∈ s.handed := by
      intro p hp
      rcases h.ahead p hp with hhanded | hahead
      · exact hhanded
      · rw [hqueue] at hahead
        rcases hahead.pop with hnone | ⟨hne, _⟩
        · cases hnone
        · exact absurd rfl hne
    have hpopped : ({ s with queue := rest } : SharedConn).Before :=
      ⟨h.streaming, h.stream, h.shutWrCalls, h.state,
        fun hno => absurd (hcalled.symm.trans hno) (by decide), h.foreign_early,
        fun p hp => Or.inl (hall p hp)⟩
    cases hok
    have hsame : s.handed ++ sentBy (i, .shutDownInLoop) = s.handed := List.append_nil _
    rw [hsame]
    exact hpopped.shutDownInLoop hcalled fun _ => hall

/-- A foreign call up to its push: a half-close is announced only by `shutdown()`. -/
theorem Before.announce (h : s.Before) {t : Nat} {f : Option ConnFunctor}
    (hf : s.shutdownCalled = false → f ≠ some .shutDownInLoop) : (s.announce t f).Before := by
  cases f with
  | none => exact h
  | some f =>
    refine ⟨h.streaming, h.stream, h.shutWrCalls, h.state, h.queue_early, ?_, h.ahead⟩
    intro hcalled u q hq
    change Function.update s.foreign t (some (s.calls, f)) u = some q at hq
    by_cases hu : u = t
    · subst hu
      rw [Function.update_self] at hq
      cases hq
      exact fun hshut => hf hcalled (congrArg some hshut)
    · rw [Function.update_of_ne hu] at hq
      exact h.foreign_early hcalled u q hq

theorem Before.push (h : s.Before) {t : Nat} {q : Nat × ConnFunctor} (hq : s.foreign t = some q) :
    (SharedConn.promise { s with
      queue := s.queue ++ [q], foreign := Function.update s.foreign t none } q).Before := by
  have hpushed : ({ s with
      queue := s.queue ++ [q], foreign := Function.update s.foreign t none } : SharedConn).Before := by
    refine ⟨h.streaming, h.stream, h.shutWrCalls, h.state, ?_, ?_, ?_⟩
    · intro hcalled a ha
      rcases List.mem_append.mp ha with ha | ha
      · exact h.queue_early hcalled a ha
      · rw [List.mem_singleton.mp ha]
        exact h.foreign_early hcalled t q hq
    · intro hcalled u a ha
      change Function.update s.foreign t none u = some a at ha
      by_cases hu : u = t
      · subst hu
        rw [Function.update_self] at ha
        cases ha
      · rw [Function.update_of_ne hu] at ha
        exact h.foreign_early hcalled u a ha
    · intro p hp
      exact (h.ahead p hp).imp id fun hahead => hahead.append q
  refine hpushed.promise ?_
  intro hcalled p hp
  obtain ⟨i, f⟩ := q
  cases f with
  | shutDownInLoop => cases hp
  | sendInLoop data =>
    rw [List.mem_singleton.mp hp]
    exact Or.inr ⟨s.queue, [], rfl, h.queue_early hcalled⟩

theorem Before.step (h : s.Before) {c : SharedCall} (horderly : s.Orderly c)
    (hstep : system.step s c t) : t.Inv := by
  obtain ⟨hadm, hok⟩ := hstep
  cases c with
  | send data r =>
    simp only [next] at hok
    split at hok
    · rename_i f hsend
      rw [ConnContext.send] at hsend
      split at hsend
      · cases hsend
        obtain ⟨ctx, hrun, hend⟩ := bind_eq_ok hok
        cases hend
        refine Or.inl ((h.hand hadm hrun (Or.inl rfl)).promise ?_)
        exact fun _ p hp => Or.inl (List.mem_append_right _ hp)
      · cases hsend
    · cases hok
      exact Or.inl h
  | shutdown =>
    cases hok
    exact h.shutdown_step horderly
  | handleWrite r =>
    obtain ⟨ctx, hrun, hend⟩ := bind_eq_ok hok
    cases hend
    exact h.handleWrite_step horderly hrun
  | runFunctor r =>
    obtain ⟨q, rest, hqueue, hw⟩ := hadm
    simp only [next, hqueue] at hok
    obtain ⟨ctx, hrun, hend⟩ := bind_eq_ok hok
    cases hend
    exact h.runFunctor_step hqueue hw hrun
  | foreignSend thread data =>
    cases hok
    refine Or.inl (h.announce fun _ hshut => ?_)
    rw [ConnContext.send] at hshut
    split at hshut <;> cases hshut
  | foreignShutdown thread =>
    cases hok
    exact Or.inl (h.exchange.announce fun hno => absurd hno.symm Bool.false_ne_true)
  | foreignPush thread =>
    simp only [next] at hok
    split at hok
    · rename_i q hq
      cases hok
      exact Or.inl (h.push hq)
    · cases hok
      exact Or.inl h

/-- **Graceful shutdown.** In every run that never passes a waiting payload by, every
    payload whose `send` returned before `shutdown()` was called has been written in
    full when `::shutdown(SHUT_WR)` is issued. -/
theorem half_close_after_payloads (h : (system.restrict Orderly).Reachable s) : s.Graceful := by
  intro hshut
  have hinv : s.Inv := by
    refine h.invariant (I := Inv) (fun _ h₀ => Or.inl (Before.of_started h₀)) ?_
    rintro a c b (hbefore | hafter) ⟨horderly, hstep⟩
    · exact hbefore.step horderly hstep
    · exact Or.inr (hafter.step hstep.2)
  rcases hinv with hbefore | hafter
  · exact absurd hbefore.shutWrCalls hshut
  · exact hafter.written

instance (s : SharedConn) (len : Nat) (r : WriteResult) : Decidable (s.Writes len r) :=
  inferInstanceAs (Decidable (_ ∧ (_ → _)))

instance (s : SharedConn) (c : SharedCall) : Decidable (s.Admissible c) :=
  match c with
  | .send data r => inferInstanceAs (Decidable (s.Writes data.length r))
  | .shutdown => .isTrue trivial
  | .handleWrite r => inferInstanceAs (Decidable (s.Writes s.ctx.conn.outputBuffer.readableBytes r))
  | .runFunctor r =>
    match hq : s.queue with
    | [] => .isFalse fun ⟨_, _, h, _⟩ => by rw [hq] at h; cases h
    | q :: rest => decidable_of_iff (s.Writes q.2.payload.length r) <| by
        constructor
        · exact fun h => ⟨q, rest, hq, h⟩
        · rintro ⟨q', rest', h, hw⟩
          rw [hq] at h
          cases h
          exact hw
  | .foreignSend t _ => inferInstanceAs (Decidable (s.foreign t = none))
  | .foreignShutdown t => inferInstanceAs (Decidable (s.foreign t = none))
  | .foreignPush t => inferInstanceAs (Decidable (s.foreign t ≠ none))

instance (s : SharedConn) (c : SharedCall) : Decidable (s.HalfCloses c) :=
  match c with
  | .shutdown =>
    inferInstanceAs (Decidable (s.ctx.conn.state = .kConnected ∧ s.ctx.isWriting = false))
  | .handleWrite (.wrote n) => inferInstanceAs (Decidable (s.ctx.isWriting = true ∧
      s.ctx.conn.state = .kDisconnecting ∧ s.ctx.conn.outputBuffer.readableBytes ≤ n))
  | .handleWrite (.error _) | .send _ _ | .runFunctor _ | .foreignSend _ _ | .foreignShutdown _
  | .foreignPush _ => .isFalse id

instance (s : SharedConn) (c : SharedCall) : Decidable (s.Orderly c) :=
  inferInstanceAs (Decidable (s.HalfCloses c →
    ¬ ∃ p ∈ s.promised, (p.1, ConnFunctor.sendInLoop p.2) ∈ s.queue))

/-- The connection on descriptor 7, nothing called yet. -/
def sample : SharedConn where
  ctx := OutputState.sample.ctx
  queue := []
  foreign := fun _ => none
  calls := 0
  shutdownCalled := false
  promised := []
  handed := []

theorem sample_started : sample.Started :=
  ⟨⟨rfl, 0, 7, Poller.empty, ⟨rfl, rfl⟩, rfl⟩, rfl, fun _ => rfl, rfl, rfl, rfl, rfl⟩

/-- The send of another thread is half written when the loop's thread calls
    `shutdown()`. -/
theorem half_close_after_payloads_sample :
    ∃ s, (system.restrict Orderly).Reachable s ∧ s.ctx.sock = ⟨[1, 2], 2, 1⟩ ∧
      s.promised = [(0, [1, 2])] ∧ s.Graceful := by
  let tr : List SharedCall :=
    [.foreignSend 3 [1, 2], .foreignPush 3, .runFunctor (.wrote 1), .shutdown,
      .handleWrite (.wrote 1)]
  have hval : (Transition.System.follow (fun s c => Orderly s c ∧ Admissible s c)
      (fun s c => (s.next c).toOption) sample tr).map (fun s => (s.ctx.sock, s.promised)) =
      some (⟨[1, 2], 2, 1⟩, [(0, [1, 2])]) := by
    decide +kernel
  obtain ⟨s, hs, heq⟩ := Option.map_eq_some_iff.mp hval
  obtain ⟨hsock, hpromised⟩ := Prod.mk.inj heq
  have hrun : (system.restrict Orderly).Run sample tr s := by
    refine .of_follow ?_ hs
    intro s c t hc hnext
    exact ⟨hc.1, hc.2, eq_ok_of_toOption hnext⟩
  have hreach : (system.restrict Orderly).Reachable s := ⟨sample, tr, sample_started, hrun⟩
  exact ⟨s, hreach, hsock, hpromised, half_close_after_payloads hreach⟩

/-- A run of `sample` that ends in a half-close with a promised send still queued. -/
theorem not_graceful_of_run {tr : List SharedCall} {p : Nat × List Byte}
    (hval : (Transition.System.follow Admissible (fun s c => (s.next c).toOption) sample tr).map
      (fun s => (s.ctx.sock.shutWrCalls, decide (p ∈ s.promised), decide (p ∈ s.handed))) =
      some (1, true, false)) :
    ∃ s, system.Run sample tr s ∧ ¬ s.Graceful := by
  obtain ⟨s, hs, heq⟩ := Option.map_eq_some_iff.mp hval
  simp only [Prod.mk.injEq, decide_eq_true_eq, decide_eq_false_iff_not] at heq
  obtain ⟨hshut, hpromised, hhanded⟩ := heq
  refine ⟨s, .of_follow ?_ hs, ?_⟩
  · intro s c t hc hnext
    exact ⟨hc, eq_ok_of_toOption hnext⟩
  · intro hgraceful
    obtain ⟨before, after, heq, _⟩ := hgraceful (by rw [hshut]; decide) p hpromised
    apply hhanded
    rw [heq]
    exact List.mem_append_right _ List.mem_cons_self

/-- Another thread's send has returned and sits in the queue: `shutdown()` in the loop's
    thread half-closes at once, and after a `shutdown()` of a third thread `handle_write`
    does as soon as it has emptied the buffer. -/
theorem half_close_overtakes_payload :
    (∃ s, system.Run sample [.foreignSend 3 [1], .foreignPush 3, .shutdown] s ∧ ¬ s.Graceful) ∧
    (∃ s, system.Run sample [.send [1, 2] (.wrote 1), .foreignSend 3 [3], .foreignPush 3,
      .foreignShutdown 4, .handleWrite (.wrote 1)] s ∧ ¬ s.Graceful) ∧
    sample.Started :=
  ⟨not_graceful_of_run (p := (0, [1])) (by decide +kernel),
    not_graceful_of_run (p := (1, [3])) (by decide +kernel), sample_started⟩

end SharedConn

end DamnWebServer
