import DamnWebServer.Http.Exchange
import DamnWebServer.Net.ChannelDispatch
import DamnWebServer.Net.ConnectionOutput

/-!
# An HTTP connection over its socket

`handle_read` and `handle_write` of a connection of the HTTP server, with `on_message` as
the message callback: what arrives goes through the input buffer to the parser, what
`on_request` sends goes to the socket at once or through the output buffer. The kernel
takes what it likes of each write.
-/

namespace DamnWebServer

/-- A connection of `Http_Server`, in its loop's thread. -/
structure HttpConnection where
  ctx : ConnContext
  /-- What `on_message` has done so far. -/
  events : List HttpEvent
  /-- `handle_close` has run: the channel is off. -/
  closed : Bool

inductive HttpConnStep where
  /-- `handle_read`; `results` is what the `::write`s of the sends return, and `time` when
      the poll returned. -/
  | read (result : ReadvResult) (time : Int) (results : Nat → WriteResult)
  /-- `handle_write`. -/
  | writable (result : WriteResult)

/-- The read of a step, if bytes came. -/
def HttpConnStep.delivery : HttpConnStep → Option HttpRead
  | .read (.delivered data) time _ => if data = [] then none else some ⟨data, time⟩
  | .read (.error _) _ _ | .writable _ => none

namespace HttpConnection

/-- What `on_message` does to the connection, send by send. -/
def perform (x : ConnContext) : (Nat → WriteResult) → List HttpEvent → Except Fault ConnContext
  | _, [] => .ok x
  | results, .request _ :: events => perform x results events
  | results, .send data :: events => do
    let x ← x.sendHere data (results 0)
    perform x (fun i => results (i + 1)) events
  | results, .shutdown :: events => perform x.shutdownHere results events
  | _, .fault f :: _ => .error f

/-- The kernel's results fit the sends, whose lengths fit an `int`. -/
def Admits : (Nat → WriteResult) → List HttpEvent → Prop
  | _, [] => True
  | results, .send data :: events =>
    (data.length ≤ 2 ^ 31 - 1 ∧ (results 0).Fits data.length ∧ (results 0).Open) ∧
      Admits (fun i => results (i + 1)) events
  | results, .request _ :: events | results, .shutdown :: events | results, .fault _ :: events =>
    Admits results events

/-- `on_message`, called by `handle_read`. -/
def onMessage (callback : HttpCallback) (s : HttpConnection) (time : Int)
    (results : Nat → WriteResult) : Except Fault HttpConnection := do
  let r := HttpServer.onMessage callback s.ctx.conn.inputBuffer time
  let x ← perform { s.ctx with conn := { s.ctx.conn with inputBuffer := r.1 } } results r.2
  return { s with ctx := x, events := s.events ++ r.2 }

/-- `handle_read`. -/
def handleRead (callback : HttpCallback) (s : HttpConnection) (result : ReadvResult) (time : Int)
    (results : Nat → WriteResult) : Except Fault HttpConnection := do
  let r ← s.ctx.handleRead result
  match r.2 with
  | .message => onMessage callback { s with ctx := r.1 } time results
  | .close => return { s with ctx := ← r.1.handleClose, closed := true }
  | .error => return { s with ctx := r.1 }

def next (callback : HttpCallback) (s : HttpConnection) : HttpConnStep → Except Fault HttpConnection
  | .read result time results => s.handleRead callback result time results
  | .writable result => return { s with ctx := ← s.ctx.handleWrite result }

/-- What the kernel can answer: `::readv` no more than the two buffers hold, `::write` no more than
    it was asked to write, and neither `EPIPE` nor `ECONNRESET`. -/
def Admissible (callback : HttpCallback) (s : HttpConnection) : HttpConnStep → Prop
  | .read result time results =>
    (∀ data, result = .delivered data → data.length ≤ s.ctx.conn.inputBuffer.iovecLength) ∧
      ∀ x, s.ctx.handleRead result = .ok (x, .message) →
        Admits results (HttpServer.onMessage callback x.conn.inputBuffer time).2
  | .writable result => result.Fits s.ctx.conn.outputBuffer.readableBytes ∧ result.Open

/-- Runs start right after `connect_established`, and end with `handle_close`. -/
def system (callback : HttpCallback) : Transition.System HttpConnection HttpConnStep where
  init s := s.events = [] ∧ s.closed = false ∧ OutputState.system.init ⟨s.ctx, []⟩
  step s l t := s.closed = false ∧ s.Admissible callback l ∧ s.next callback l = .ok t

/-- The reads of a run. -/
def reads (tr : List HttpConnStep) : List HttpRead := tr.filterMap HttpConnStep.delivery

-- ════════════════════════════════════════════════════════════════════════
-- What the handlers leave alone
-- ════════════════════════════════════════════════════════════════════════

section

variable {x y : ConnContext}

theorem onChannel_conn {op : Poller → Channel → Except Fault (Poller × Channel)}
    (h : x.onChannel op = .ok y) :
    y.conn.inputBuffer = x.conn.inputBuffer ∧ y.conn.outputBuffer = x.conn.outputBuffer ∧
      y.sock = x.sock := by
  obtain ⟨r, _, hend⟩ := bind_eq_ok h
  cases hend
  exact ⟨rfl, rfl, rfl⟩

theorem sendHere_input {data : List Byte} {r : WriteResult} (h : x.sendHere data r = .ok y) :
    y.conn.inputBuffer = x.conn.inputBuffer := by
  rw [ConnContext.sendHere, ConnContext.send] at h
  by_cases hstate : x.conn.state = .kConnected
  · rw [if_pos hstate] at h
    have hdirect := (ConnContext.directWrite_conn x data r).1
    have hsend : x.sendInLoop data r = .ok y := h
    rw [ConnContext.sendInLoop] at hsend
    split at hsend
    · cases hsend
      rfl
    · dsimp only at hsend
      split at hsend
      · obtain ⟨out, _, hrest⟩ := bind_eq_ok hsend
        have hout : ((x.directWrite data r).1.setOutput out).conn.inputBuffer =
            x.conn.inputBuffer := by
          show (x.directWrite data r).1.conn.inputBuffer = x.conn.inputBuffer
          rw [hdirect]
        split at hrest
        · exact (onChannel_conn hrest).1.trans hout
        · cases hrest
          exact hout
      · cases hsend
        rw [hdirect]
  · rw [if_neg hstate] at h
    cases h
    rfl

theorem shutdownHere_input (x : ConnContext) :
    x.shutdownHere.conn.inputBuffer = x.conn.inputBuffer := by
  rw [ConnContext.shutdownHere, ConnContext.shutdown]
  by_cases hstate : x.conn.state = .kConnected
  · simp only [if_pos hstate]
    rw [(ConnContext.shutDownInLoop_eq _).1]
    rfl
  · simp only [if_neg hstate]
    rfl

theorem drained_input {n : Nat} (h : x.drained n = .ok y) :
    y.conn.inputBuffer = x.conn.inputBuffer := by
  simp only [ConnContext.drained] at h
  split at h
  · obtain ⟨z, hch, hend⟩ := bind_eq_ok h
    have hz : z.conn.inputBuffer = x.conn.inputBuffer := (onChannel_conn hch).1
    cases hend
    split
    · rw [(ConnContext.shutDownInLoop_eq _).1, hz]
    · exact hz
  · cases h
    rfl

theorem handleWrite_input {r : WriteResult} (h : x.handleWrite r = .ok y) :
    y.conn.inputBuffer = x.conn.inputBuffer := by
  rw [ConnContext.handleWrite] at h
  split at h
  · cases r with
    | error e =>
      cases h
      rfl
    | wrote n =>
      simp only at h
      split at h
      · exact (drained_input h).trans rfl
      · cases h
        rfl
  · cases h
    rfl

theorem perform_input {results : Nat → WriteResult} {events : List HttpEvent}
    (h : perform x results events = .ok y) : y.conn.inputBuffer = x.conn.inputBuffer := by
  induction events generalizing x results with
  | nil =>
    cases h
    rfl
  | cons e events ih =>
    cases e with
    | request req => exact ih h
    | send data =>
      obtain ⟨z, hz, hrest⟩ := bind_eq_ok h
      exact (ih hrest).trans (sendHere_input hz)
    | shutdown => exact (ih h).trans (shutdownHere_input x)
    | fault f => cases h

end

/-- `handle_read` up to the call it makes: bytes are put behind those that wait, and their
    number says what comes next. -/
theorem handleRead_cases {x y : ConnContext} {r : ReadvResult}
    {n : ConnContext.ReadNext}
    (h : x.handleRead r = .ok (y, n)) :
    (∃ e, r = .error e ∧ y = x ∧ n = .error) ∨
      ∃ data b, r = .delivered data ∧ n = (if data = [] then .close else .message) ∧
        y = { x with conn := { x.conn with inputBuffer := b } } ∧
        (x.conn.inputBuffer.Valid → data.length ≤ x.conn.inputBuffer.iovecLength →
          x.conn.inputBuffer.Delivers data b) := by
  obtain ⟨res, hres, hend⟩ := bind_eq_ok h
  cases r with
  | error e =>
    cases hres
    cases hend
    exact Or.inl ⟨e, rfl, rfl, rfl⟩
  | delivered data =>
    refine Or.inr ⟨data, res.1, rfl, ?_, ?_, fun hv hlen => Buffer.delivers_readFd hv hlen hres⟩
    · have hn := congrArg Prod.snd (Except.ok.inj hend)
      refine hn.symm.trans ?_
      simp only [Dispatched.readFd_count hres]
      cases data with
      | nil => rfl
      | cons byte rest =>
        have hsome : ((byte :: rest).length : Int) > 0 := Int.natCast_pos.mpr (Nat.succ_pos _)
        rw [if_pos hsome, if_neg (List.cons_ne_nil _ _)]
    · exact (congrArg Prod.fst (Except.ok.inj hend)).symm

-- ════════════════════════════════════════════════════════════════════════
-- The output of the events
-- ════════════════════════════════════════════════════════════════════════

open HttpSession OutputCall

theorem sentBeforeShutdown_append (tr calls : List OutputCall) :
    sentBeforeShutdown (tr ++ calls) =
      if tr.any isShutdown then sentBeforeShutdown tr
      else sentBeforeShutdown tr ++ sentBeforeShutdown calls := by
  induction tr with
  | nil => rfl
  | cons a tr ih =>
    unfold sentBeforeShutdown at ih ⊢
    cases ha : a.isShutdown with
    | true => simp [ha]
    | false =>
      simp only [List.cons_append, List.takeWhile_cons, ha, Bool.not_false, if_true,
        List.flatMap_cons, List.any_cons, Bool.false_or, ih]
      split <;> simp

theorem sent_append (events more : List HttpEvent) :
    sent (events ++ more) =
      if .shutdown ∈ events then sent events else sent events ++ sent more := by
  induction events with
  | nil => rfl
  | cons e events ih =>
    unfold sent beforeShutdown at ih ⊢
    by_cases he : e = .shutdown
    · rw [he]
      simp
    · have hmem : HttpEvent.shutdown ∈ e :: events ↔ .shutdown ∈ events := by
        rw [List.mem_cons]
        exact or_iff_right (Ne.symm he)
      have hkeep : decide (e ≠ .shutdown) = true := decide_eq_true he
      rw [List.cons_append, List.takeWhile_cons, List.takeWhile_cons, if_pos hkeep, if_pos hkeep,
        List.flatMap_cons, List.flatMap_cons, ih, if_congr hmem rfl rfl]
      by_cases hshut : HttpEvent.shutdown ∈ events
      · rw [if_pos hshut, if_pos hshut]
      · rw [if_neg hshut, if_neg hshut, List.append_assoc]

/-- Another input buffer is nothing to the output. -/
theorem inv_input {tr : List OutputCall} {x : ConnContext} {accepted : List Byte}
    (h : OutputState.Inv tr ⟨x, accepted⟩) (b : Buffer) :
    OutputState.Inv tr ⟨{ x with conn := { x.conn with inputBuffer := b } }, accepted⟩ where
  streaming := ⟨h.streaming.tracks, h.streaming.added, h.streaming.reading, h.streaming.output,
    h.streaming.writing_iff⟩
  stream := h.stream
  accepted := h.accepted
  up := h.up
  down := h.down

/-- What the output calls so far have to do with the events. -/
def Matches (calls : List OutputCall) (events : List HttpEvent) : Prop :=
  sentBeforeShutdown calls = sent events ∧ (calls.any isShutdown = true ↔ .shutdown ∈ events)

theorem Matches.append {calls calls' : List OutputCall} {events events' : List HttpEvent}
    (h : Matches calls events) (h' : Matches calls' events') :
    Matches (calls ++ calls') (events ++ events') := by
  refine ⟨?_, ?_⟩
  · rw [sentBeforeShutdown_append, sent_append, h.1, h'.1]
    exact if_congr h.2 rfl rfl
  · rw [List.any_append, Bool.or_eq_true, h.2, h'.2, List.mem_append]

/-- The events of one `on_message` are output calls that match them. -/
theorem perform_inv {tr : List OutputCall} {x y : ConnContext} {accepted : List Byte}
    (h : OutputState.Inv tr ⟨x, accepted⟩) {results : Nat → WriteResult} {events : List HttpEvent}
    (hadmits : Admits results events) (hok : perform x results events = .ok y) :
    (∀ f, .fault f ∉ events) ∧ ∃ calls accepted', OutputState.Inv (tr ++ calls) ⟨y, accepted'⟩ ∧
      Matches calls events := by
  induction events generalizing tr x accepted results with
  | nil =>
    cases hok
    exact ⟨fun _ => List.not_mem_nil, [], accepted, by rwa [List.append_nil], rfl, by simp⟩
  | cons e events ih =>
    -- the output calls of the first event, and those of the others behind them
    have hrest : ∀ calls {accepted' z results}, OutputState.Inv (tr ++ calls) ⟨z, accepted'⟩ →
        Matches calls [e] → (∀ f, e ≠ .fault f) → Admits results events →
        perform z results events = .ok y →
        (∀ f, .fault f ∉ e :: events) ∧ ∃ calls accepted',
          OutputState.Inv (tr ++ calls) ⟨y, accepted'⟩ ∧ Matches calls (e :: events) := by
      intro calls accepted' z results hinv hmatch hne hadm hz
      obtain ⟨hfault, calls', accepted'', hinv', hmatch'⟩ := ih hinv hadm hz
      refine ⟨fun f hf => ?_, calls ++ calls', accepted'', ?_, hmatch.append hmatch'⟩
      · rcases List.mem_cons.mp hf with hf | hf
        · exact hne f hf.symm
        · exact hfault f hf
      · rwa [← List.append_assoc]
    cases e with
    | request req =>
      exact hrest [] (by rwa [List.append_nil]) ⟨rfl, by simp⟩
        (fun f => HttpEvent.noConfusion) hadmits hok
    | send data =>
      obtain ⟨⟨hlen, hfit, hopen⟩, hadm⟩ := hadmits
      obtain ⟨z, hz, hy⟩ := bind_eq_ok hok
      have hstep : (⟨x, accepted⟩ : OutputState).Admissible (.send data (results 0)) :=
        ⟨hlen, hfit, hopen⟩
      have hnext : (⟨x, accepted⟩ : OutputState).next (.send data (results 0)) =
          .ok ⟨z, if x.conn.connected then accepted ++ data else accepted⟩ := by
        simp only [OutputState.next, OutputState.run, hz, bind, Except.bind]
        rfl
      have hinv := (OutputState.step_spec h hstep).of_eq_ok hnext
      exact hrest [.send data (results 0)] hinv ⟨rfl, by simp [isShutdown]⟩
        (fun f => HttpEvent.noConfusion) hadm hy
    | shutdown =>
      obtain ⟨t, ht, hinv⟩ := OutputState.shutdown_step h
      have hx : t.ctx = x.shutdownHere := by
        obtain ⟨z, hz, hend⟩ := bind_eq_ok ht
        cases hz
        cases hend
        rfl
      obtain ⟨ctx, accepted'⟩ := t
      cases hx
      exact hrest [.shutdown] hinv ⟨rfl, by simp [isShutdown]⟩
        (fun f => HttpEvent.noConfusion) hadmits hok
    | fault f => cases hok

-- ════════════════════════════════════════════════════════════════════════
-- Runs
-- ════════════════════════════════════════════════════════════════════════

variable {callback : HttpCallback} {s t : HttpConnection}

theorem onMessage_valid (callback : HttpCallback) {b : Buffer} (h : b.Valid) (time : Int) :
    (HttpServer.onMessage callback b time).1.Valid := by
  obtain ⟨b', hparse, hvalid, _⟩ := HttpContext.parse_digest time (c := {}) h (Or.inl rfl)
  rw [HttpContext.parse] at hparse
  simp only [HttpServer.onMessage, hparse]
  exact hvalid

/-- What holds after the steps `tr`. Once the connection is closed its output buffer and
    its socket are those it had then. -/
structure Serves (callback : HttpCallback) (tr : List HttpConnStep) (s : HttpConnection) : Prop where
  session : ∃ input, (HttpSession.system callback).Run .start (reads tr) ⟨input, s.events⟩ ∧
    input.Valid ∧ (s.closed = false → input = s.ctx.conn.inputBuffer)
  output : ∃ calls x accepted, OutputState.Inv calls ⟨x, accepted⟩ ∧ Matches calls s.events ∧
    x.sock = s.ctx.sock ∧ x.conn.outputBuffer = s.ctx.conn.outputBuffer ∧
    (s.closed = false → x = s.ctx)
  noFault : ∀ f, .fault f ∉ s.events

theorem reads_snoc (tr : List HttpConnStep) (l : HttpConnStep) :
    reads (tr ++ [l]) = reads tr ++ l.delivery.toList := by
  rw [reads, List.filterMap_append]
  cases hl : l.delivery <;> simp [reads, hl]

/-- A step that brings no bytes, and keeps what is to be kept. -/
theorem Serves.quiet {tr : List HttpConnStep} (h : Serves callback tr s) {l : HttpConnStep}
    (hl : l.delivery = none) (hevents : t.events = s.events)
    (hinput : t.closed = false → s.closed = false ∧ t.ctx.conn.inputBuffer = s.ctx.conn.inputBuffer)
    (hout : ∃ calls x accepted, OutputState.Inv calls ⟨x, accepted⟩ ∧ Matches calls t.events ∧
      x.sock = t.ctx.sock ∧ x.conn.outputBuffer = t.ctx.conn.outputBuffer ∧
      (t.closed = false → x = t.ctx)) : Serves callback (tr ++ [l]) t := by
  obtain ⟨input, hrun, hvalid, hsame⟩ := h.session
  refine ⟨⟨input, ?_, hvalid, fun hopen => ?_⟩, hout, by rw [hevents]; exact h.noFault⟩
  · rw [reads_snoc, hl, hevents, Option.toList_none, List.append_nil]
    exact hrun
  · rw [(hinput hopen).2]
    exact hsame (hinput hopen).1

/-- `handle_write` moves bytes to the socket. -/
theorem Serves.writable {tr : List HttpConnStep} (h : Serves callback tr s) {r : WriteResult}
    (hopen : s.closed = false) (hok : s.next callback (.writable r) = .ok t) :
    Serves callback (tr ++ [.writable r]) t := by
  obtain ⟨y, hy, hend⟩ := bind_eq_ok hok
  cases hend
  obtain ⟨calls, x, accepted, hinv, hmatch, _, _, hsame⟩ := h.output
  cases hsame hopen
  obtain ⟨u, hu, hinv'⟩ := OutputState.handleWrite_step hinv r
  obtain ⟨z, hz, hend⟩ := bind_eq_ok hu
  have hzy : z = y := Except.ok.inj (hz.symm.trans hy)
  cases hzy
  cases hend
  have hquiet : Matches (calls ++ [.handleWrite r]) (s.events ++ []) :=
    hmatch.append ⟨rfl, by simp [isShutdown]⟩
  rw [List.append_nil] at hquiet
  exact h.quiet rfl rfl (fun _ => ⟨hopen, handleWrite_input hy⟩)
    ⟨_, y, _, hinv', hquiet, rfl, rfl, fun _ => rfl⟩

/-- `handle_read` with bytes: `on_message` runs. -/
theorem Serves.message {tr : List HttpConnStep} (h : Serves callback tr s) {data : List Byte}
    {time : Int} {results : Nat → WriteResult} (hopen : s.closed = false) (hne : data ≠ [])
    {b : Buffer} (hb : s.ctx.conn.inputBuffer.Delivers data b)
    (hadmits : Admits results (HttpServer.onMessage callback b time).2)
    (hok : onMessage callback
      { s with ctx := { s.ctx with conn := { s.ctx.conn with inputBuffer := b } } } time results =
        .ok t) : Serves callback (tr ++ [.read (.delivered data) time results]) t := by
  obtain ⟨input, hrun, _, hsame⟩ := h.session
  cases hsame hopen
  obtain ⟨calls, x, accepted, hinv, hmatch, _, _, hctx⟩ := h.output
  cases hctx hopen
  obtain ⟨y, hy, hend⟩ := bind_eq_ok hok
  cases hend
  have hinput := perform_input hy
  obtain ⟨hfault, calls', accepted', hinv', hmatch'⟩ :=
    perform_inv (inv_input hinv (HttpServer.onMessage callback b time).1) hadmits hy
  have hdelivery : HttpConnStep.delivery (.read (.delivered data) time results) =
      some ⟨data, time⟩ := if_neg hne
  refine ⟨⟨_, ?_, onMessage_valid callback hb.1 time, fun _ => hinput.symm⟩,
    ⟨_, y, accepted', hinv', hmatch.append hmatch', rfl, rfl, fun _ => rfl⟩, ?_⟩
  · rw [reads_snoc, hdelivery]
    exact hrun.snoc ⟨h.noFault, hne, b, hb, rfl⟩
  · intro f hf
    rcases List.mem_append.mp hf with hf | hf
    · exact h.noFault f hf
    · exact hfault f hf

theorem Serves.step {tr : List HttpConnStep} (h : Serves callback tr s) {l : HttpConnStep}
    (hstep : (system callback).step s l t) : Serves callback (tr ++ [l]) t := by
  obtain ⟨hopen, hadmissible, hok⟩ := hstep
  cases l with
  | writable r => exact h.writable hopen hok
  | read result time results =>
    obtain ⟨⟨y, n⟩, hread, hrest⟩ := bind_eq_ok hok
    obtain ⟨input, _, hvalid, hsame⟩ := h.session
    cases hsame hopen
    rcases handleRead_cases hread with ⟨e, rfl, rfl, rfl⟩ | ⟨data, b, rfl, rfl, rfl, hdelivers⟩
    · -- a failed read changes nothing
      cases hrest
      obtain ⟨calls, x, accepted, hinv, hmatch, hsock, hout, hctx⟩ := h.output
      exact h.quiet rfl rfl (fun _ => ⟨hopen, rfl⟩) ⟨calls, x, accepted, hinv, hmatch, hsock, hout, hctx⟩
    · have hb := hdelivers hvalid (hadmissible.1 data rfl)
      by_cases hne : data = []
      · -- the end of the stream: the connection is closed
        simp only [if_pos hne] at hrest
        obtain ⟨z, hz, hend⟩ := bind_eq_ok hrest
        cases hend
        obtain ⟨_, _, hchannel⟩ := bind_eq_ok hz
        obtain ⟨_, hout, hsock⟩ := onChannel_conn hchannel
        obtain ⟨calls, x, accepted, hinv, hmatch, hsock', hout', _⟩ := h.output
        exact h.quiet (if_pos hne) rfl (fun hno => Bool.noConfusion hno)
          ⟨calls, x, accepted, hinv, hmatch, hsock'.trans hsock.symm, hout'.trans hout.symm,
            fun hno => Bool.noConfusion hno⟩
      · simp only [if_neg hne] at hrest hread
        exact h.message hopen hne hb (hadmissible.2 _ hread) hrest

open HttpServer HttpResponse ClientRequest

def sample : HttpConnection := ⟨OutputState.sample.ctx, [], false⟩

theorem sample_init : (system sampleCallback).init sample :=
  ⟨rfl, rfl, rfl, 0, 7, Poller.empty, ⟨rfl, rfl⟩, rfl⟩

end HttpConnection

end DamnWebServer
