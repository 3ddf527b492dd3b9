import DamnWebServer.Net.ConnectionHandlers

/-!
# The state of a connection over its whole life

Any interleaving of the loop's steps on one connection with `send` and
`shutdown` calls from any thread. A foreign call that found work leaves a
functor; the loop may run the waiting functors in any order, which covers every
delay between a caller's look at `state_` and its push. A failed assertion or an
exception ends the run in the state it was raised in.

`shutdown()` exchanges `state_` whatever it was, and `connect_destroyed` clears
the mask only of a connected connection. `Calm` says when neither goes wrong.
-/

namespace DamnWebServer

/-- The order in which `state_` is meant to move. -/
def StateE.rank : StateE → Nat
  | .kConnecting => 0
  | .kConnected => 1
  | .kDisconnecting => 2
  | .kDisconnected => 3

structure LifeState where
  ctx : ConnContext
  queued : List ConnFunctor
  aborted : Bool

inductive LifeStep where
  | connectEstablished
  | handleRead (r : ReadvResult)
  | handleWrite (r : WriteResult)
  | handleClose
  | connectDestroyed
  | runQueued (i : Nat) (r : WriteResult)
  | send (inLoop : Bool) (data : List Byte) (r : WriteResult)
  | shutdown (inLoop : Bool)
  deriving DecidableEq, Repr

namespace LifeState

def settle (s : LifeState) : Except Fault ConnContext → LifeState
  | .ok x => { s with ctx := x }
  | .error _ => { s with aborted := true }

def next (s : LifeState) : LifeStep → LifeState
  | .connectEstablished => s.settle s.ctx.connectEstablished
  | .handleRead r =>
    match s.ctx.handleRead r with
    | .error _ => { s with aborted := true }
    | .ok (x, .close) => ({ s with ctx := x } : LifeState).settle x.handleClose
    | .ok (x, .message) | .ok (x, .error) => { s with ctx := x }
  | .handleWrite r => s.settle (s.ctx.handleWrite r)
  | .handleClose => s.settle s.ctx.handleClose
  | .connectDestroyed =>
    match s.ctx.connectDestroyed with
    | .error _ => { s with ctx := s.ctx.setState .kDisconnected, aborted := true }
    | .ok (x, _) => ({ s with ctx := x } : LifeState).settle x.removeChannel
  | .runQueued i r =>
    match s.queued[i]? with
    | none => s
    | some f => ({ s with queued := s.queued.eraseIdx i } : LifeState).settle (s.ctx.runFunctor r f)
  | .send inLoop data r =>
    match s.ctx.send data with
    | none => s
    | some f =>
      if inLoop then s.settle (s.ctx.runFunctor r f) else { s with queued := s.queued ++ [f] }
  | .shutdown inLoop =>
    let x := s.ctx.shutdown.1
    match s.ctx.shutdown.2 with
    | none => { s with ctx := x }
    | some f =>
      if inLoop then ({ s with ctx := x } : LifeState).settle (x.runFunctor (.wrote 0) f)
      else { s with ctx := x, queued := s.queued ++ [f] }

/-- From the constructor on; nothing follows a failure. -/
def system : Transition.System LifeState LifeStep where
  init s := ∃ addr fd p, p.Tracks (TcpConnection.new addr fd).channel ∧
    s = ⟨⟨TcpConnection.new addr fd, p, Socket.new⟩, [], false⟩
  step s l t := s.aborted = false ∧ s.next l = t

/-- What the life cycle promises between two points of a run. -/
def Forward (s t : LifeState) : Prop :=
  s.ctx.conn.state.rank ≤ t.ctx.conn.state.rank ∧
    (s.ctx.conn.state = .kDisconnected →
      t.ctx.conn.state = .kDisconnected ∧ t.ctx.conn.channel.events = kNoneEvent ∧
        t.ctx.sock.writeCalls = s.ctx.sock.writeCalls)

/-- No `shutdown()` on a disconnected connection, and no `connect_destroyed` on
    one that is shutting down and still watched. -/
def Calm (s : LifeState) : LifeStep → Prop
  | .shutdown _ => s.ctx.conn.state ≠ .kDisconnected
  | .connectDestroyed =>
    ¬(s.ctx.conn.state = .kDisconnecting ∧ s.ctx.conn.channel.events ≠ kNoneEvent)
  | _ => True

structure Inv (s : LifeState) : Prop where
  tracks : s.ctx.poller.Tracks s.ctx.conn.channel
  fresh : s.ctx.conn.state = .kConnecting →
    s.ctx.conn.channel.events = kNoneEvent ∧ s.queued = []
  down : s.ctx.conn.state = .kDisconnected → s.ctx.conn.channel.events = kNoneEvent

end LifeState

namespace ConnContext

/-- On a disconnected connection a functor changes neither the connection nor
    the count of writes. -/
theorem runFunctor_disconnected {x y : ConnContext} {r : WriteResult} {f : ConnFunctor}
    (hdown : x.conn.state = .kDisconnected) (hok : x.runFunctor r f = .ok y) :
    y.conn = x.conn ∧ y.sock.writeCalls = x.sock.writeCalls := by
  cases f with
  | sendInLoop data =>
    have hx : x.sendInLoop data r = .ok x := if_pos hdown
    have hy := Except.ok.inj (hok.symm.trans hx)
    subst hy
    exact ⟨rfl, rfl⟩
  | shutDownInLoop =>
    cases hok
    exact ⟨x.shutDownInLoop_eq.1, x.shutDownInLoop_eq.2.2⟩

end ConnContext

namespace LifeState

/-- One step's share of the proof: the invariant afterwards and the promise
    between before and after. -/
def Good (s t : LifeState) : Prop := Inv t ∧ Forward s t

theorem Forward.refl {s : LifeState} (h : Inv s) : Forward s s :=
  ⟨Nat.le_refl _, fun hdown => ⟨hdown, h.down hdown, rfl⟩⟩

theorem Good.refl {s : LifeState} (h : Inv s) : Good s s := ⟨h, Forward.refl h⟩

theorem Good.abort {s t : LifeState} (h : Good s t) : Good s { t with aborted := true } :=
  ⟨⟨h.1.tracks, h.1.fresh, h.1.down⟩, h.2⟩

theorem Good.settle {s t : LifeState} {x : Except Fault ConnContext} (herr : Good s t)
    (hok : ∀ y, x = .ok y → Good s { t with ctx := y }) : Good s (t.settle x) := by
  cases x with
  | error e => exact herr.abort
  | ok y => exact hok y rfl

/-- Work that leaves `state_` alone, touches nothing of a fresh connection, and
    writes nothing on a disconnected one. -/
theorem good_of_keeps {s : LifeState} (h : Inv s) {y : ConnContext} (hk : s.ctx.Keeps y)
    {q : List ConnFunctor}
    (hfresh : s.ctx.conn.state = .kConnecting → y.conn = s.ctx.conn ∧ q = [])
    (hdown : s.ctx.conn.state = .kDisconnected →
      y.conn = s.ctx.conn ∧ y.sock.writeCalls = s.ctx.sock.writeCalls) :
    Good s { s with ctx := y, queued := q } := by
  refine ⟨⟨hk.tracks, ?_, ?_⟩, ?_, ?_⟩
  · intro hst
    have hst' : s.ctx.conn.state = .kConnecting := hk.state.symm.trans hst
    obtain ⟨hc, hq⟩ := hfresh hst'
    exact ⟨by rw [hc]; exact (h.fresh hst').1, hq⟩
  · intro hst
    have hst' : s.ctx.conn.state = .kDisconnected := hk.state.symm.trans hst
    rw [(hdown hst').1]
    exact h.down hst'
  · exact Nat.le_of_eq (congrArg StateE.rank hk.state.symm)
  · intro hst
    obtain ⟨hc, hw⟩ := hdown hst
    exact ⟨by rw [hc]; exact hst, by rw [hc]; exact h.down hst, hw⟩

/-- Reaching `k_disconnected` with an empty mask is a move forward. -/
theorem good_of_down {s t : LifeState} (htracks : t.ctx.poller.Tracks t.ctx.conn.channel)
    (hdown : t.ctx.conn.state = .kDisconnected)
    (hmask : t.ctx.conn.channel.events = kNoneEvent)
    (hw : s.ctx.conn.state = .kDisconnected → t.ctx.sock.writeCalls = s.ctx.sock.writeCalls) :
    Good s t := by
  refine ⟨⟨htracks, fun hst => ?_, fun _ => hmask⟩, ?_, fun hst => ⟨hdown, hmask, hw hst⟩⟩
  · rw [hdown] at hst
    cases hst
  · rw [hdown]
    cases s.ctx.conn.state <;> decide

theorem handleWrite_good {s : LifeState} (h : Inv s) (r : WriteResult) :
    Good s (s.next (.handleWrite r)) := by
  refine (Good.refl h).settle fun y hok => ?_
  have hidle : s.ctx.conn.channel.events = kNoneEvent → y = s.ctx := by
    intro hnone
    exact Except.ok.inj (hok.symm.trans (ConnContext.handleWrite_of_none r hnone))
  refine good_of_keeps h ((ConnContext.handleWrite_keeps r h.tracks).of_eq_ok hok) ?_ ?_
  · intro hst
    rw [hidle (h.fresh hst).1]
    exact ⟨rfl, (h.fresh hst).2⟩
  · intro hst
    rw [hidle (h.down hst)]
    exact ⟨rfl, rfl⟩

theorem handleClose_good {s t : LifeState} (h : Inv t)
    (hgood : Good s t) (hsame : s.ctx.conn.state = t.ctx.conn.state) :
    Good s (t.settle t.ctx.handleClose) := by
  refine hgood.settle fun y hok => ?_
  by_cases hst : t.ctx.conn.state = .kConnected ∨ t.ctx.conn.state = .kDisconnecting
  · obtain ⟨p, hclose, htracks, _⟩ := ConnContext.handleClose_spec h.tracks hst
    have hy := Except.ok.inj (hok.symm.trans hclose)
    subst hy
    refine good_of_down htracks rfl rfl fun hdown => ?_
    rw [hsame] at hdown
    rcases hst with hst | hst <;> rw [hst] at hdown <;> cases hdown
  · -- the assertion fails and no later state exists
    rw [ConnContext.handleClose, decide_eq_false hst] at hok
    cases hok

theorem handleRead_good {s : LifeState} (h : Inv s) (r : ReadvResult) :
    Good s (s.next (.handleRead r)) := by
  simp only [next]
  cases hread : s.ctx.handleRead r with
  | error e => exact (Good.refl h).abort
  | ok res =>
    obtain ⟨x, n⟩ := res
    obtain ⟨hk, hsock, hch⟩ := (ConnContext.handleRead_keeps r h.tracks).of_eq_ok hread
    have hst : x.conn.state = s.ctx.conn.state := hk.state
    have hx : Good s { s with ctx := x } := by
      refine ⟨⟨hk.tracks, ?_, ?_⟩, ?_, ?_⟩
      · change x.conn.state = _ → x.conn.channel.events = _ ∧ _
        rw [hst, hch]
        exact h.fresh
      · change x.conn.state = _ → x.conn.channel.events = _
        rw [hst, hch]
        exact h.down
      · exact Nat.le_of_eq (congrArg StateE.rank hst.symm)
      · intro hdown
        change x.conn.state = _ ∧ x.conn.channel.events = _ ∧ x.sock.writeCalls = _
        rw [hst, hch, hsock]
        exact ⟨hdown, h.down hdown, rfl⟩
    cases n with
    | message => exact hx
    | error => exact hx
    | close => exact handleClose_good hx.1 hx hst.symm

theorem runFunctor_good {s : LifeState} (h : Inv s) {f : ConnFunctor} {r : WriteResult}
    {q : List ConnFunctor} (hfresh : s.ctx.conn.state ≠ .kConnecting) :
    Good s (({ s with queued := q } : LifeState).settle (s.ctx.runFunctor r f)) := by
  have hself : Good s { s with queued := q } :=
    good_of_keeps h (.refl h.tracks) (fun hst => absurd hst hfresh) fun _ => ⟨rfl, rfl⟩
  refine hself.settle fun y hok => ?_
  exact good_of_keeps h ((ConnContext.runFunctor_keeps r f h.tracks).of_eq_ok hok)
    (fun hst => absurd hst hfresh) fun hst => ConnContext.runFunctor_disconnected hst hok

/-- `channel_->remove()` fails or forgets the channel; the mask stays as it is. -/
theorem removeChannel_good {s t : LifeState} (hgood : Good s t)
    (hdown : t.ctx.conn.state = .kDisconnected)
    (hw : s.ctx.conn.state = .kDisconnected → t.ctx.sock.writeCalls = s.ctx.sock.writeCalls) :
    Good s (t.settle t.ctx.removeChannel) := by
  refine hgood.settle fun y hok => ?_
  have hmask := hgood.1.down hdown
  by_cases hnew : t.ctx.conn.channel.index = .kNew
  · have htr := hgood.1.tracks
    simp only [Poller.Tracks, hnew] at htr
    simp [ConnContext.removeChannel, ConnContext.onChannel, Poller.remove, Poller.removeChannel,
      Channel.isNoneEvent, hmask, htr.1, require, bind, Except.bind] at hok
  · obtain ⟨p, hrem, htracks, _⟩ := ConnContext.removeChannel_spec hgood.1.tracks hmask hnew
    have hy := Except.ok.inj (hok.symm.trans hrem)
    subst hy
    exact good_of_down htracks hdown hmask hw

theorem connectDestroyed_good {s : LifeState} (h : Inv s) (hcalm : s.Calm .connectDestroyed) :
    Good s (s.next .connectDestroyed) := by
  simp only [next, ConnContext.connectDestroyed]
  by_cases hup : s.ctx.conn.state = .kConnected
  · obtain ⟨p, hset, htracks, _, _⟩ := ConnContext.onChannel_setEvents
      (x := s.ctx.setState .kDisconnected) h.tracks Poller.disableAll kNoneEvent rfl
    rw [if_pos hup, hset]
    have hno : s.ctx.conn.state ≠ .kDisconnected := by
      rw [hup]
      nofun
    refine removeChannel_good (good_of_down htracks rfl rfl fun hst => absurd hst hno) rfl ?_
    exact fun hst => absurd hst hno
  · -- any other state is overwritten; its mask has to be empty already
    rw [if_neg hup]
    have hmask : s.ctx.conn.channel.events = kNoneEvent := by
      cases hst : s.ctx.conn.state with
      | kConnecting => exact (h.fresh hst).1
      | kConnected => exact absurd hst hup
      | kDisconnected => exact h.down hst
      | kDisconnecting =>
        by_contra hne
        exact hcalm ⟨hst, hne⟩
    exact removeChannel_good (good_of_down h.tracks rfl hmask fun _ => rfl) rfl fun _ => rfl

theorem connectEstablished_good {s : LifeState} (h : Inv s) :
    Good s (s.next .connectEstablished) := by
  refine (Good.refl h).settle fun y hok => ?_
  by_cases hst : s.ctx.conn.state = .kConnecting
  · obtain ⟨p, hset, htracks, _⟩ := ConnContext.connectEstablished_spec h.tracks hst
    have hy := Except.ok.inj (hok.symm.trans hset)
    subst hy
    refine ⟨⟨htracks, nofun, nofun⟩, ?_, ?_⟩
    · rw [hst]
      change StateE.kConnecting.rank ≤ StateE.kConnected.rank
      decide
    · intro hdown
      rw [hst] at hdown
      cases hdown
  · rw [ConnContext.connectEstablished, decide_eq_false hst] at hok
    cases hok

theorem send_good {s : LifeState} (h : Inv s) (inLoop : Bool) (data : List Byte)
    (r : WriteResult) : Good s (s.next (.send inLoop data r)) := by
  simp only [next, ConnContext.send]
  by_cases hup : s.ctx.conn.state = .kConnected
  · have hfresh : s.ctx.conn.state ≠ .kConnecting := by
      rw [hup]
      nofun
    rw [if_pos hup]
    cases inLoop with
    | true => exact runFunctor_good h hfresh
    | false =>
      exact good_of_keeps h (.refl h.tracks) (fun hst => absurd hst hfresh) fun _ => ⟨rfl, rfl⟩
  · rw [if_neg hup]
    exact Good.refl h

theorem shutdown_good {s : LifeState} (h : Inv s) (inLoop : Bool)
    (hcalm : s.Calm (.shutdown inLoop)) : Good s (s.next (.shutdown inLoop)) := by
  have hno : s.ctx.conn.state ≠ .kDisconnected := hcalm
  have hmoved : ∀ q x, x.conn = (s.ctx.setState .kDisconnecting).conn → x.poller = s.ctx.poller →
      Good s { s with ctx := x, queued := q } := by
    intro q x hc hp
    refine ⟨⟨?_, ?_, ?_⟩, ?_, fun hst => absurd hst hno⟩
    · change x.poller.Tracks x.conn.channel
      rw [hc, hp]
      exact h.tracks
    · change x.conn.state = _ → _
      rw [hc]
      nofun
    · change x.conn.state = _ → _
      rw [hc]
      nofun
    · change _ ≤ x.conn.state.rank
      rw [hc]
      change _ ≤ StateE.kDisconnecting.rank
      cases hst : s.ctx.conn.state with
      | kDisconnected => exact absurd hst hno
      | _ => decide
  simp only [next, ConnContext.shutdown]
  by_cases hup : s.ctx.conn.state = .kConnected
  · rw [if_pos hup]
    cases inLoop with
    | true =>
      change Good s (settle _ (.ok (s.ctx.setState .kDisconnecting).shutDownInLoop))
      refine (hmoved s.queued _ rfl rfl).settle fun y hok => ?_
      obtain ⟨hc, hp, _⟩ := (s.ctx.setState .kDisconnecting).shutDownInLoop_eq
      have hy := Except.ok.inj hok
      subst hy
      exact hmoved s.queued _ hc hp
    | false => exact hmoved _ _ rfl rfl
  · rw [if_neg hup]
    exact hmoved s.queued _ rfl rfl

theorem runQueued_good {s : LifeState} (h : Inv s) (i : Nat) (r : WriteResult) :
    Good s (s.next (.runQueued i r)) := by
  simp only [next]
  cases hq : s.queued[i]? with
  | none => exact Good.refl h
  | some f =>
    have hfresh : s.ctx.conn.state ≠ .kConnecting := by
      intro hst
      rw [(h.fresh hst).2] at hq
      cases hq
    exact runFunctor_good h hfresh

/-- Every calm step keeps the invariant and the promise. -/
theorem step_good {s t : LifeState} {l : LifeStep} (h : Inv s)
    (hstep : (system.restrict Calm).step s l t) : Good s t := by
  obtain ⟨hcalm, _, rfl⟩ := hstep
  cases l with
  | connectEstablished => exact connectEstablished_good h
  | handleRead r => exact handleRead_good h r
  | handleWrite r => exact handleWrite_good h r
  | handleClose => exact handleClose_good h (Good.refl h) rfl
  | connectDestroyed => exact connectDestroyed_good h hcalm
  | runQueued i r => exact runQueued_good h i r
  | send inLoop data r => exact send_good h inLoop data r
  | shutdown inLoop => exact shutdown_good h inLoop hcalm

theorem init_inv {s : LifeState} (h : system.init s) : Inv s := by
  obtain ⟨addr, fd, p, htracks, rfl⟩ := h
  exact ⟨htracks, fun _ => ⟨rfl, rfl⟩, fun _ => rfl⟩

theorem Forward.trans {s t u : LifeState} (h : Forward s t) (h' : Forward t u) : Forward s u := by
  refine ⟨Nat.le_trans h.1 h'.1, fun hdown => ?_⟩
  obtain ⟨ht, _, hw⟩ := h.2 hdown
  obtain ⟨hu, hmask, hw'⟩ := h'.2 ht
  exact ⟨hu, hmask, hw'.trans hw⟩

/-- **Disconnected is terminal.** Between any two points of a run whose steps
    are all calm, `state_` moves forward only; from `k_disconnected` on it stays,
    the mask is empty and nothing more is written. -/
theorem disconnected_terminal {s₀ s t : LifeState} {tr tr' : List LifeStep}
    (h₀ : system.init s₀) (hs : (system.restrict Calm).Run s₀ tr s)
    (ht : (system.restrict Calm).Run s tr' t) : Forward s t := by
  have hinv : Inv s := hs.invariant (fun _ _ _ h hl => (step_good h hl).1) (init_inv h₀)
  exact ht.relates (fun _ h => Forward.refl h) (fun _ _ _ => Forward.trans)
    (fun _ _ _ h hl => (step_good h hl).1) (fun _ _ _ h hl => (step_good h hl).2) hinv

/-- A `shutdown()` on a disconnected connection takes it back to
    `k_disconnecting`: the condition cannot be dropped. -/
theorem not_forward_of_late_shutdown {s : LifeState} (hdown : s.ctx.conn.state = .kDisconnected)
    (inLoop : Bool) : ¬Forward s (s.next (.shutdown inLoop)) := by
  intro hfwd
  have hup : s.ctx.conn.state ≠ .kConnected := by
    rw [hdown]
    nofun
  have hstay := (hfwd.2 hdown).1
  simp only [next, ConnContext.shutdown, if_neg hup] at hstay
  cases hstay

/-- Nor can the other: `connect_destroyed` leaves the mask of a half-closed
    connection as it was, under `k_disconnected`. -/
theorem not_forward_of_watched_destroy {s t : LifeState}
    (hstate : s.ctx.conn.state = .kDisconnecting)
    (hmask : s.ctx.conn.channel.events ≠ kNoneEvent) (ht : t = s.next .connectDestroyed) :
    t.ctx.conn.state = .kDisconnected ∧ t.aborted = true ∧ ¬Forward t t := by
  have hup : s.ctx.conn.state ≠ .kConnected := by
    rw [hstate]
    nofun
  have hrem : (s.ctx.setState .kDisconnected).removeChannel = .error (.assertion "is_none_event()") := by
    rw [ConnContext.removeChannel, ConnContext.onChannel, Poller.remove]
    simp [Channel.isNoneEvent, hmask, require, bind, Except.bind]
  subst ht
  simp only [next, ConnContext.connectDestroyed, if_neg hup, hrem, settle]
  refine ⟨rfl, trivial, fun hfwd => ?_⟩
  exact hmask (hfwd.2 rfl).2.1

/-- Descriptor 7, right after the constructor. -/
def sample : LifeState := ⟨⟨TcpConnection.new 0 7, Poller.empty, Socket.new⟩, [], false⟩

theorem sample_init : system.init sample := ⟨0, 7, Poller.empty, ⟨rfl, rfl⟩, rfl⟩

/-- Connected, half-closed by the user, then closed by the peer. -/
def sampleClosed : LifeState :=
  ((sample.next .connectEstablished).next (.shutdown true)).next .handleClose

theorem sample_run : (system.restrict Calm).Run sample
    [.connectEstablished, .shutdown true, .handleClose] sampleClosed := by
  have h₁ : (system.restrict Calm).Run sample [.connectEstablished]
      (sample.next .connectEstablished) := .single ⟨trivial, rfl, rfl⟩
  have h₂ : (system.restrict Calm).Run sample [.connectEstablished, .shutdown true]
      ((sample.next .connectEstablished).next (.shutdown true)) :=
    h₁.snoc ⟨(by decide : StateE.kConnected ≠ .kDisconnected), rfl, rfl⟩
  exact h₂.snoc ⟨trivial, rfl, rfl⟩

theorem disconnected_terminal_sample :
    sampleClosed.ctx.conn.state = .kDisconnected ∧
      Forward sampleClosed (sampleClosed.next (.send false [65] (.wrote 1))) := by
  have hlate : (system.restrict Calm).Run sampleClosed [.send false [65] (.wrote 1)]
      (sampleClosed.next (.send false [65] (.wrote 1))) := .single ⟨trivial, rfl, rfl⟩
  exact ⟨rfl, disconnected_terminal sample_init sample_run hlate⟩

theorem disconnected_not_terminal : ¬∀ (s₀ s t : LifeState) (tr tr' : List LifeStep),
    system.init s₀ → system.Run s₀ tr s → system.Run s tr' t → Forward s t := by
  intro hall
  have hlate : system.Run sampleClosed [.shutdown true] (sampleClosed.next (.shutdown true)) :=
    .single ⟨rfl, rfl⟩
  exact not_forward_of_late_shutdown rfl true
    (hall _ _ _ _ _ sample_init sample_run.of_restrict hlate)

end LifeState

end DamnWebServer
