import DamnWebServer.Base.Machine

/-!
# Channels and the epoll poller

`Channel` (`net/channel.h`, `net/channel.cpp`) and `Epoll_Poller`
(`net/epoll_poller.cpp`), together with the kernel's interest list that
`epoll_ctl` edits. `Poller.Tracks` is what the bookkeeping is for: the three
values of a channel's index say where the descriptor is known.
-/

namespace DamnWebServer

/-- A poll mask, one field for each bit the program names. -/
structure PollMask where
  pollin : Bool := false
  pollpri : Bool := false
  pollout : Bool := false
  pollerr : Bool := false
  pollhup : Bool := false
  pollnval : Bool := false
  pollrdhup : Bool := false
  deriving DecidableEq, Repr

namespace PollMask

/-- `a | b`. -/
def or (a b : PollMask) : PollMask where
  pollin := a.pollin || b.pollin
  pollpri := a.pollpri || b.pollpri
  pollout := a.pollout || b.pollout
  pollerr := a.pollerr || b.pollerr
  pollhup := a.pollhup || b.pollhup
  pollnval := a.pollnval || b.pollnval
  pollrdhup := a.pollrdhup || b.pollrdhup

/-- `a & ~b`. -/
def without (a b : PollMask) : PollMask where
  pollin := a.pollin && !b.pollin
  pollpri := a.pollpri && !b.pollpri
  pollout := a.pollout && !b.pollout
  pollerr := a.pollerr && !b.pollerr
  pollhup := a.pollhup && !b.pollhup
  pollnval := a.pollnval && !b.pollnval
  pollrdhup := a.pollrdhup && !b.pollrdhup

end PollMask

/-- `k_none_event`. -/
def kNoneEvent : PollMask := {}

/-- `k_read_event`: `POLLIN | POLLPRI`. -/
def kReadEvent : PollMask := { pollin := true, pollpri := true }

/-- `k_write_event`: `POLLOUT`. -/
def kWriteEvent : PollMask := { pollout := true }

/-- `index_` of a channel. -/
inductive ChannelIndex where
  | kNew | kAdded | kDeleted
  deriving DecidableEq, Repr

/-- `Channel`. `addr` stands for the object's address, by which `channels_` and
    the kernel know it. -/
structure Channel where
  addr : Nat
  fd : Nat
  events : PollMask := kNoneEvent
  index : ChannelIndex := .kNew
  deriving DecidableEq, Repr

/-- The callbacks `handle_event` may call. -/
inductive ChannelCallback where
  | close | error | read | write
  deriving DecidableEq, Repr

namespace Channel

def isNoneEvent (ch : Channel) : Bool := ch.events = kNoneEvent

def isWriting (ch : Channel) : Bool := ch.events.pollout

/-- `handle_event`: the callbacks in the order of the calls, for the `revents_`
    that `fill_active_channels` stored. -/
def handleEvent (revents : PollMask) : List ChannelCallback :=
  (if revents.pollhup && !revents.pollin then [.close] else []) ++
  (if revents.pollerr || revents.pollnval then [.error] else []) ++
  (if revents.pollin || revents.pollpri || revents.pollrdhup then [.read] else []) ++
  (if revents.pollout then [.write] else [])

end Channel

/-- The operations of `epoll_ctl`. -/
inductive CtlOp where
  | add | mod | del
  deriving DecidableEq, Repr

/-- `Epoll_Poller` with the kernel's interest list of its `epollfd_`, which maps
    a descriptor to the mask and the `data.ptr` it was registered with. -/
structure Poller where
  channels : Nat → Option Nat
  interest : Nat → Option (PollMask × Nat)
  /-- The calls of `epoll_ctl` that returned an error. -/
  failures : Nat

namespace Poller

/-- A poller that watches nothing. -/
def empty : Poller where
  channels _ := none
  interest _ := none
  failures := 0

/-- `update`: one `epoll_ctl`. `ADD` fails on a registered descriptor, `MOD` and
    `DEL` on an unregistered one; the error is not acted upon. -/
def update (p : Poller) (op : CtlOp) (ch : Channel) : Poller :=
  match op, p.interest ch.fd with
  | .add, none | .mod, some _ =>
    { p with interest := Function.update p.interest ch.fd (some (ch.events, ch.addr)) }
  | .del, some _ => { p with interest := Function.update p.interest ch.fd none }
  | .add, some _ | .mod, none | .del, none => { p with failures := p.failures + 1 }

def updateChannel (p : Poller) (ch : Channel) : Except Fault (Poller × Channel) :=
  match ch.index with
  | .kNew => do
    require (p.channels ch.fd).isNone "channels_.find(fd) == channels_.end()"
    let p := { p with channels := Function.update p.channels ch.fd (some ch.addr) }
    let ch := { ch with index := .kAdded }
    return (p.update .add ch, ch)
  | .kDeleted => do
    require (p.channels ch.fd).isSome "channels_.find(fd) != channels_.end()"
    require (p.channels ch.fd = some ch.addr) "channels_[fd] == channel"
    let ch := { ch with index := .kAdded }
    return (p.update .add ch, ch)
  | .kAdded => do
    require (p.channels ch.fd).isSome "channels_.find(fd) != channels_.end()"
    require (p.channels ch.fd = some ch.addr) "channels_[fd] == channel"
    if ch.isNoneEvent then return (p.update .del ch, { ch with index := .kDeleted })
    else return (p.update .mod ch, ch)

def removeChannel (p : Poller) (ch : Channel) : Except Fault (Poller × Channel) := do
  require (p.channels ch.fd).isSome "channels_.find(fd) != channels_.end()"
  require (p.channels ch.fd = some ch.addr) "channels_[fd] == channel"
  require ch.isNoneEvent "channel->is_none_event()"
  require (ch.index ≠ .kNew) "idx == k_added || idx == k_deleted"
  -- `size_t n = channels_.erase(fd)`
  require (p.channels ch.fd).isSome "n == 1"
  let erased := { p with channels := Function.update p.channels ch.fd none }
  let p := if ch.index = .kAdded then erased.update .del ch else erased
  return (p, { ch with index := .kNew })

/-- `Channel::update` after `events_` was set: the common part of the four
    functions below. -/
def setEvents (p : Poller) (ch : Channel) (events : PollMask) : Except Fault (Poller × Channel) :=
  p.updateChannel { ch with events := events }

def enableReading (p : Poller) (ch : Channel) : Except Fault (Poller × Channel) :=
  p.setEvents ch (ch.events.or kReadEvent)

def enableWriting (p : Poller) (ch : Channel) : Except Fault (Poller × Channel) :=
  p.setEvents ch (ch.events.or kWriteEvent)

def disableWriting (p : Poller) (ch : Channel) : Except Fault (Poller × Channel) :=
  p.setEvents ch (ch.events.without kWriteEvent)

def disableAll (p : Poller) (ch : Channel) : Except Fault (Poller × Channel) :=
  p.setEvents ch kNoneEvent

/-- `Channel::remove`. -/
def remove (p : Poller) (ch : Channel) : Except Fault (Poller × Channel) := do
  require ch.isNoneEvent "is_none_event()"
  p.removeChannel ch

/-- The bookkeeping of one channel: `k_new` is known nowhere, `k_added` is in
    `channels_` and registered with its current mask, `k_deleted` is in
    `channels_` only. -/
def Tracks (p : Poller) (ch : Channel) : Prop :=
  match ch.index with
  | .kNew => p.channels ch.fd = none ∧ p.interest ch.fd = none
  | .kAdded => p.channels ch.fd = some ch.addr ∧ p.interest ch.fd = some (ch.events, ch.addr)
  | .kDeleted => p.channels ch.fd = some ch.addr ∧ p.interest ch.fd = none

/-- Two pollers agree on every descriptor but one. -/
def SameExcept (fd : Nat) (p q : Poller) : Prop :=
  ∀ fd', fd' ≠ fd → q.channels fd' = p.channels fd' ∧ q.interest fd' = p.interest fd'

/-- Bookkeeping depends on the entries of the channel's descriptor only. -/
theorem Tracks.congr {p q : Poller} {ch : Channel} (h : p.Tracks ch)
    (hc : q.channels ch.fd = p.channels ch.fd) (hi : q.interest ch.fd = p.interest ch.fd) :
    q.Tracks ch := by
  unfold Tracks at h ⊢
  rw [hc, hi]
  exact h

/-- The index after an update with the mask `events`. -/
def nextIndex (index : ChannelIndex) (events : PollMask) : ChannelIndex :=
  if index = .kAdded ∧ events = kNoneEvent then .kDeleted else .kAdded

/-- **Update.** From consistent bookkeeping, setting any mask passes every
    assertion and every `epoll_ctl` succeeds; other descriptors are untouched.
    A descriptor taken off the list is put back even with an empty mask. -/
theorem setEvents_spec {p : Poller} {ch : Channel} (h : p.Tracks ch) (events : PollMask) :
    ∃ p', p.setEvents ch events =
        .ok (p', { ch with events := events, index := nextIndex ch.index events }) ∧
      p'.Tracks { ch with events := events, index := nextIndex ch.index events } ∧
      SameExcept ch.fd p p' ∧ p'.failures = p.failures := by
  unfold Tracks at h
  cases hidx : ch.index with
  | kNew =>
    rw [hidx] at h
    obtain ⟨hc, hi⟩ := h
    refine ⟨{ p with
        channels := Function.update p.channels ch.fd (some ch.addr),
        interest := Function.update p.interest ch.fd (some (events, ch.addr)) }, ?_, ?_, ?_, rfl⟩
    · simp [setEvents, updateChannel, hidx, hc, hi, update, nextIndex, bind, Except.bind, pure,
        Except.pure]
    · simp [Tracks, nextIndex]
    · intro fd hfd
      simp [Function.update_of_ne hfd]
  | kDeleted =>
    rw [hidx] at h
    obtain ⟨hc, hi⟩ := h
    refine ⟨{ p with
        interest := Function.update p.interest ch.fd (some (events, ch.addr)) }, ?_, ?_, ?_, rfl⟩
    · simp [setEvents, updateChannel, hidx, hc, hi, update, nextIndex, bind, Except.bind, pure,
        Except.pure]
    · simp [Tracks, nextIndex, hc]
    · intro fd hfd
      simp [Function.update_of_ne hfd]
  | kAdded =>
    rw [hidx] at h
    obtain ⟨hc, hi⟩ := h
    by_cases hnone : events = kNoneEvent
    · subst hnone
      refine ⟨{ p with interest := Function.update p.interest ch.fd none }, ?_, ?_, ?_, rfl⟩
      · simp [setEvents, updateChannel, Channel.isNoneEvent, hidx, hc, hi, update, nextIndex, bind,
          Except.bind, pure, Except.pure]
      · simp [Tracks, nextIndex, hc]
      · intro fd hfd
        simp [Function.update_of_ne hfd]
    · refine ⟨{ p with
          interest := Function.update p.interest ch.fd (some (events, ch.addr)) }, ?_, ?_, ?_, rfl⟩
      · simp [setEvents, updateChannel, Channel.isNoneEvent, hidx, hc, hi, update, nextIndex, bind,
          Except.bind, pure, Except.pure, hnone]
      · simp [Tracks, nextIndex, hc, hnone]
      · intro fd hfd
        simp [Function.update_of_ne hfd]

/-- **Removal.** A known channel with an empty mask is forgotten by `channels_`
    and by the kernel. -/
theorem remove_spec {p : Poller} {ch : Channel} (h : p.Tracks ch)
    (hnone : ch.events = kNoneEvent) (hknown : ch.index ≠ .kNew) :
    ∃ p', p.remove ch = .ok (p', { ch with index := .kNew }) ∧
      p'.Tracks { ch with index := .kNew } ∧ SameExcept ch.fd p p' ∧
      p'.failures = p.failures := by
  unfold Tracks at h
  cases hidx : ch.index with
  | kNew => exact absurd hidx hknown
  | kDeleted =>
    rw [hidx] at h
    obtain ⟨hc, hi⟩ := h
    refine ⟨{ p with channels := Function.update p.channels ch.fd none }, ?_, ?_, ?_, rfl⟩
    · simp [remove, removeChannel, Channel.isNoneEvent, hnone, hidx, hc, bind, Except.bind, pure,
        Except.pure]
    · simp [Tracks, hi]
    · intro fd hfd
      simp [Function.update_of_ne hfd]
  | kAdded =>
    rw [hidx] at h
    obtain ⟨hc, hi⟩ := h
    refine ⟨{ p with
        channels := Function.update p.channels ch.fd none,
        interest := Function.update p.interest ch.fd none }, ?_, ?_, ?_, rfl⟩
    · simp [remove, removeChannel, Channel.isNoneEvent, hnone, hidx, hc, hi, update, bind,
        Except.bind, pure, Except.pure]
    · simp [Tracks]
    · intro fd hfd
      simp [Function.update_of_ne hfd]

end Poller

end DamnWebServer
