import DamnWebServer.Lib.Transition
import DamnWebServer.Net.Poller

/-!
# Runs of the poller

Any number of channels on one `Epoll_Poller`, each of them driven through
`enable_reading`, `enable_writing`, `disable_writing`, `disable_all` and
`remove` in any order. The index and the mask of a channel, `channels_` and the
interest list of the kernel are three records of one fact; `Poller.Tracks` says
how they agree on one channel, and here it is carried through whole runs for all
of them at once.
-/

namespace DamnWebServer

/-- The calls on a channel that reach the poller. -/
inductive ChannelCall where
  | enableReading | enableWriting | disableWriting | disableAll | remove
  deriving DecidableEq, Repr

namespace ChannelCall

/-- The call, made on `ch`. -/
def run (p : Poller) (ch : Channel) : ChannelCall → Except Fault (Poller × Channel)
  | .enableReading => p.enableReading ch
  | .enableWriting => p.enableWriting ch
  | .disableWriting => p.disableWriting ch
  | .disableAll => p.disableAll ch
  | .remove => p.remove ch

end ChannelCall

/-- An `epoll_event` that `epoll_wait` wrote into `events_`. -/
structure EpollEvent where
  events : PollMask
  ptr : Nat
  deriving DecidableEq, Repr

/-- `fill_active_channels`: the channels to handle, each with its `revents_`. -/
def EpollEvent.fillActiveChannels (reported : List EpollEvent) : List (Nat × PollMask) :=
  reported.map fun ev => (ev.ptr, ev.events)

namespace Poller

/-- `Poller::has_channel`. -/
def hasChannel (p : Poller) (ch : Channel) : Bool := p.channels ch.fd = some ch.addr

/-- What `epoll_wait` may report: events of registered descriptors, with the
    `data.ptr` they were registered with. -/
def MayReport (p : Poller) (reported : List EpollEvent) : Prop :=
  ∀ ev ∈ reported, ∃ fd mask, p.interest fd = some (mask, ev.ptr)

end Poller

/-- One poller and its channels. -/
structure PollerState (ι : Type) where
  poller : Poller
  channel : ι → Channel
  /-- The calls so far, newest first. -/
  calls : List (ι × ChannelCall)

namespace PollerState

variable {ι : Type} [DecidableEq ι]

/-- The channel has been updated since it was created or last removed. -/
def updated (i : ι) : List (ι × ChannelCall) → Bool
  | [] => false
  | (j, call) :: older => if j = i then call ≠ .remove else updated i older

/-- One call on one channel. -/
def perform (st : PollerState ι) (l : ι × ChannelCall) : Except Fault (PollerState ι) := do
  let (poller, ch) ← l.2.run st.poller (st.channel l.1)
  return {
    poller := poller
    channel := Function.update st.channel l.1 ch
    calls := l :: st.calls }

/-- The precondition of a call: `remove` wants an empty mask and a channel that
    has been updated. -/
def Permitted (st : PollerState ι) (l : ι × ChannelCall) : Prop :=
  l.2 = .remove → (st.channel l.1).events = kNoneEvent ∧ updated l.1 st.calls

/-- Channels as their constructor leaves them, no two with one descriptor, on a
    poller that watches nothing. -/
structure Fresh (st : PollerState ι) : Prop where
  fds : ∀ i j, (st.channel i).fd = (st.channel j).fd → i = j
  addrs : ∀ i j, (st.channel i).addr = (st.channel j).addr → i = j
  events : ∀ i, (st.channel i).events = kNoneEvent
  index : ∀ i, (st.channel i).index = .kNew
  poller : st.poller = .empty
  calls : st.calls = []

/-- All sequences of permitted calls. -/
def system (ι : Type) [DecidableEq ι] : Transition.System (PollerState ι) (ι × ChannelCall) where
  init := Fresh
  step st l st' := st.Permitted l ∧ st.perform l = .ok st'

instance (st : PollerState ι) (l : ι × ChannelCall) : Decidable (st.Permitted l) :=
  inferInstanceAs (Decidable (_ → _))

/-- The state after some calls, if they are permitted and return. -/
def after (st : PollerState ι) (calls : List (ι × ChannelCall)) : Option (PollerState ι) :=
  Transition.System.follow Permitted (fun st l => (st.perform l).toOption) st calls

theorem run_of_after {st st' : PollerState ι} {calls : List (ι × ChannelCall)}
    (h : st.after calls = some st') : (system ι).Run st calls st' := by
  refine .of_follow ?_ h
  intro s l t hl hperf
  exact ⟨hl, eq_ok_of_toOption hperf⟩

/-- What a run keeps. Every entry of the interest list belongs to one of the
    channels. -/
structure Sound (st : PollerState ι) : Prop where
  fds : ∀ i j, (st.channel i).fd = (st.channel j).fd → i = j
  addrs : ∀ i j, (st.channel i).addr = (st.channel j).addr → i = j
  tracks : ∀ i, st.poller.Tracks (st.channel i)
  known : ∀ i, updated i st.calls ↔ (st.channel i).index ≠ .kNew
  failures : st.poller.failures = 0
  owned : ∀ fd e, st.poller.interest fd = some e → ∃ i, (st.channel i).fd = fd

theorem Fresh.sound {st : PollerState ι} (h : Fresh st) : Sound st where
  fds := h.fds
  addrs := h.addrs
  tracks i := by
    unfold Poller.Tracks
    rw [h.index i, h.poller]
    exact ⟨rfl, rfl⟩
  known i := by simp [h.calls, updated, h.index i]
  failures := by rw [h.poller]; rfl
  owned fd e he := by
    rw [h.poller] at he
    cases he

/-- What one call does to the poller and to its channel. -/
structure Moves (p : Poller) (ch : Channel) (call : ChannelCall) (p' : Poller) (ch' : Channel) :
    Prop where
  ran : call.run p ch = .ok (p', ch')
  fd : ch'.fd = ch.fd
  addr : ch'.addr = ch.addr
  tracks : p'.Tracks ch'
  same : Poller.SameExcept ch.fd p p'
  failures : p'.failures = p.failures
  index : ch'.index = .kNew ↔ call = .remove

theorem nextIndex_ne_kNew (index : ChannelIndex) (events : PollMask) :
    Poller.nextIndex index events ≠ .kNew := by
  unfold Poller.nextIndex
  split <;> simp

/-- The four calls that set the mask. -/
theorem moves_of_setEvents {p : Poller} {ch : Channel} {call : ChannelCall} {events : PollMask}
    (h : p.Tracks ch) (hrun : call.run p ch = p.setEvents ch events) (hcall : call ≠ .remove) :
    ∃ p' ch', Moves p ch call p' ch' := by
  obtain ⟨p', hset, htracks, hsame, hfail⟩ := Poller.setEvents_spec h events
  refine ⟨p', _, ⟨hrun.trans hset, rfl, rfl, htracks, hsame, hfail, ?_⟩⟩
  have hne := nextIndex_ne_kNew ch.index events
  exact ⟨fun hnew => absurd hnew hne, fun hrem => absurd hrem hcall⟩

/-- **One call.** From consistent bookkeeping a permitted call passes every
    assertion and leaves the bookkeeping of its channel consistent. -/
theorem run_moves {p : Poller} {ch : Channel} {call : ChannelCall} (h : p.Tracks ch)
    (hremove : call = .remove → ch.events = kNoneEvent ∧ ch.index ≠ .kNew) :
    ∃ p' ch', Moves p ch call p' ch' := by
  cases call with
  | enableReading => exact moves_of_setEvents h rfl (by simp)
  | enableWriting => exact moves_of_setEvents h rfl (by simp)
  | disableWriting => exact moves_of_setEvents h rfl (by simp)
  | disableAll => exact moves_of_setEvents h rfl (by simp)
  | remove =>
    obtain ⟨hnone, hknown⟩ := hremove rfl
    obtain ⟨p', hrem, htracks, hsame, hfail⟩ := Poller.remove_spec h hnone hknown
    exact ⟨p', _, ⟨hrem, rfl, rfl, htracks, hsame, hfail, by simp⟩⟩

theorem Sound.moves {st : PollerState ι} (h : Sound st) {l : ι × ChannelCall}
    (hl : st.Permitted l) : ∃ p' ch', Moves st.poller (st.channel l.1) l.2 p' ch' := by
  apply run_moves (h.tracks l.1)
  intro hrem
  obtain ⟨hnone, hupd⟩ := hl hrem
  exact ⟨hnone, (h.known l.1).mp hupd⟩

theorem Moves.perform_eq {st : PollerState ι} {l : ι × ChannelCall} {p' : Poller} {ch' : Channel}
    (h : Moves st.poller (st.channel l.1) l.2 p' ch') :
    st.perform l = .ok {
      poller := p'
      channel := Function.update st.channel l.1 ch'
      calls := l :: st.calls } := by
  unfold perform
  rw [h.ran]
  rfl

theorem Moves.sound {st : PollerState ι} (hst : Sound st) {l : ι × ChannelCall} {p' : Poller}
    {ch' : Channel} (h : Moves st.poller (st.channel l.1) l.2 p' ch') :
    Sound {
      poller := p'
      channel := Function.update st.channel l.1 ch'
      calls := l :: st.calls } := by
  -- no channel changes its descriptor or its address
  have hfd : ∀ j, (Function.update st.channel l.1 ch' j).fd = (st.channel j).fd := by
    intro j
    by_cases hj : j = l.1
    · subst hj
      simpa using h.fd
    · simp [Function.update_of_ne hj]
  have haddr : ∀ j, (Function.update st.channel l.1 ch' j).addr = (st.channel j).addr := by
    intro j
    by_cases hj : j = l.1
    · subst hj
      simpa using h.addr
    · simp [Function.update_of_ne hj]
  refine {
    fds := ?_
    addrs := ?_
    tracks := ?_
    known := ?_
    failures := h.failures.trans hst.failures
    owned := ?_ }
  · intro i j hij
    rw [hfd, hfd] at hij
    exact hst.fds i j hij
  · intro i j hij
    rw [haddr, haddr] at hij
    exact hst.addrs i j hij
  · intro j
    by_cases hj : j = l.1
    · subst hj
      simpa using h.tracks
    · have hne : (st.channel j).fd ≠ (st.channel l.1).fd := fun he => hj (hst.fds _ _ he)
      obtain ⟨hc, hi⟩ := h.same _ hne
      simpa [Function.update_of_ne hj] using (hst.tracks j).congr hc hi
  · intro j
    by_cases hj : j = l.1
    · subst hj
      simp [updated, h.index]
    · simpa [updated, Ne.symm hj, Function.update_of_ne hj] using hst.known j
  · intro fd e he
    by_cases hown : fd = (st.channel l.1).fd
    · exact ⟨l.1, (hfd l.1).trans hown.symm⟩
    · rw [(h.same fd hown).2] at he
      obtain ⟨j, hj⟩ := hst.owned fd e he
      exact ⟨j, (hfd j).trans hj⟩

theorem reachable_sound {st : PollerState ι} (h : (system ι).Reachable st) : Sound st := by
  apply h.invariant
  · intro s hs
    exact hs.sound
  · intro s l t hs hstep
    obtain ⟨hl, hperf⟩ := hstep
    obtain ⟨p', ch', hmoves⟩ := hs.moves hl
    rw [hmoves.perform_eq] at hperf
    cases hperf
    exact hmoves.sound hs

/-- The agreement of the three records on one channel. -/
structure Agree (p : Poller) (ch : Channel) : Prop where
  mapped : p.hasChannel ch ↔ ch.index = .kAdded ∨ ch.index = .kDeleted
  alone : ∀ a, p.channels ch.fd = some a → a = ch.addr
  registered : (p.interest ch.fd).isSome ↔ ch.index = .kAdded
  current : ∀ e, p.interest ch.fd = some e → e = (ch.events, ch.addr)

theorem agree_of_tracks {p : Poller} {ch : Channel} (h : p.Tracks ch) : Agree p ch := by
  unfold Poller.Tracks at h
  cases hidx : ch.index <;> rw [hidx] at h <;> obtain ⟨hc, hi⟩ := h <;>
    constructor <;> simp [Poller.hasChannel, hidx, hc, hi]

/-- A channel that is not in the kernel's set is not reported. -/
theorem Sound.not_reported {st : PollerState ι} (h : Sound st) {i : ι}
    (hi : (st.channel i).index ≠ .kAdded) {reported : List EpollEvent}
    (hrep : st.poller.MayReport reported) {act : Nat × PollMask}
    (hact : act ∈ EpollEvent.fillActiveChannels reported) : act.1 ≠ (st.channel i).addr := by
  intro haddr
  obtain ⟨ev, hev, rfl⟩ := List.mem_map.mp hact
  obtain ⟨fd, mask, hint⟩ := hrep ev hev
  -- the entry belongs to some channel, whose address it carries
  obtain ⟨j, rfl⟩ := h.owned fd _ hint
  have hentry := (agree_of_tracks (h.tracks j)).current _ hint
  have hij : i = j := h.addrs i j (haddr.symm.trans (congrArg Prod.snd hentry))
  subst hij
  apply hi
  rw [← (agree_of_tracks (h.tracks i)).registered, hint]
  rfl

/-- **Poller bookkeeping matches the kernel.** After every sequence of permitted
    calls the three records agree on every channel, no `epoll_ctl` has failed,
    every further permitted call passes its assertions, and a channel that is
    removed, or was never added, is returned by no poll. -/
theorem reachable_bookkeeping {st : PollerState ι} (h : (system ι).Reachable st) :
    (∀ i, Agree st.poller (st.channel i)) ∧ st.poller.failures = 0 ∧
      (∀ l, st.Permitted l → ∃ st', st.perform l = .ok st') ∧
      ∀ i, updated i st.calls = false →
        st.poller.interest (st.channel i).fd = none ∧
        ∀ reported, st.poller.MayReport reported →
          ∀ act ∈ EpollEvent.fillActiveChannels reported, act.1 ≠ (st.channel i).addr := by
  have hs := reachable_sound h
  refine ⟨fun i => agree_of_tracks (hs.tracks i), hs.failures, ?_, ?_⟩
  · intro l hl
    obtain ⟨p', ch', hmoves⟩ := hs.moves hl
    exact ⟨_, hmoves.perform_eq⟩
  · intro i hi
    have hnew : (st.channel i).index = .kNew := by
      by_contra hne
      have := (hs.known i).mpr hne
      simp [hi] at this
    constructor
    · have hreg := (agree_of_tracks (hs.tracks i)).registered
      rw [hnew] at hreg
      simpa using hreg
    · intro reported hrep act hact
      exact hs.not_reported (by simp [hnew]) hrep hact

theorem reachable_bookkeeping_removed :
    ∃ st : PollerState Bool, (system Bool).Reachable st ∧ st.calls.length = 6 ∧ Agree st.poller (st.channel true) ∧
      st.poller.interest (st.channel false).fd = none := by
  -- one channel is taken off the list, put back with an empty mask, and removed
  let st₀ : PollerState Bool :=
    ⟨.empty, fun b => { addr := if b then 8 else 16, fd := if b then 3 else 4 }, []⟩
  have hfresh : Fresh st₀ := ⟨by decide, by decide, fun _ => rfl, fun _ => rfl, rfl, rfl⟩
  let calls : List (Bool × ChannelCall) :=
    [(false, .enableReading), (true, .enableWriting), (false, .disableAll), (false, .disableAll),
      (true, .enableReading), (false, .remove)]
  have hval : (st₀.after calls).map PollerState.calls = some calls.reverse := by decide
  obtain ⟨st, hst, hcalls⟩ := Option.map_eq_some_iff.mp hval
  have hreach : (system Bool).Reachable st := ⟨st₀, calls, hfresh, run_of_after hst⟩
  have hbook := reachable_bookkeeping hreach
  refine ⟨st, hreach, by rw [hcalls]; rfl, hbook.1 true, (hbook.2.2.2 false ?_).1⟩
  rw [hcalls]
  decide

end PollerState

end DamnWebServer
