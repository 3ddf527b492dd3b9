import DamnWebServer.Base.Timestamp
import DamnWebServer.Lib.OrderedSet

/-!
# The timer queue

`Timer` and `Timer_Queue` (`net/timer.h`, `net/timer.cpp`, `net/timer_queue.h`,
`net/timer_queue.cpp`). The sets hold raw pointers, so the model has addresses
and a heap of the timers that exist; to use an address without a timer is a
`dangling` fault, and so is to delete it twice. Every assertion is a `require`.
Times are microseconds; `handle_read` is cut where it calls the callbacks.
-/

namespace DamnWebServer

structure Timer where
  expiration : Timestamp
  /-- `interval_` in microseconds, as `add_time` truncates it. -/
  interval : Nat
  repeats : Bool
  sequence : Int
  deriving DecidableEq, Repr

def Timer.restart (t : Timer) (now : Timestamp) : Timer :=
  { t with expiration := if t.repeats then now + t.interval else 0 }

structure TimerID where
  timer : Nat
  sequence : Int
  deriving DecidableEq, Repr

/-- `Entry`: ordered by expiration, then by address. -/
abbrev Entry := Timestamp ×ₗ Nat

/-- `Active_Timer`: ordered by address, then by sequence. -/
abbrev ActiveTimer := Nat ×ₗ Int

def Entry.mk (when : Timestamp) (a : Nat) : Entry := toLex (when, a)

def Entry.when (e : Entry) : Timestamp := (ofLex e).1

def Entry.timer (e : Entry) : Nat := (ofLex e).2

def ActiveTimer.mk (a : Nat) (sequence : Int) : ActiveTimer := toLex (a, sequence)

def uintptrMax : Nat := 2 ^ 64 - 1

structure Timespec where
  tvSec : Int
  tvNsec : Int
  deriving DecidableEq, Repr

inductive TimerfdCall where
  | read
  /-- `timerfd_settime` at a clock value. -/
  | settime (clock : Timestamp) (value : Timespec)
  deriving DecidableEq, Repr

def howMuchTimeFromNow (when now : Timestamp) : Timespec :=
  let microseconds := if when - now < 100 then 100 else when - now
  { tvSec := microseconds.tdiv kMicrosecondsPerSecond
    tvNsec := microseconds.tmod kMicrosecondsPerSecond * 1000 }

structure TimerQueue where
  heap : Nat → Option Timer
  timers : OrderedSet Entry
  activeTimers : OrderedSet ActiveTimer
  cancelingTimers : OrderedSet ActiveTimer
  callingExpiredTimers : Bool
  timerfd : List TimerfdCall
  /-- The sequences of the timers deleted so far. -/
  deleted : List Int

namespace TimerQueue

def empty : TimerQueue := ⟨fun _ => none, .empty, .empty, .empty, false, [], []⟩

/-- `timer->...`. -/
def deref (q : TimerQueue) (a : Nat) : Except Fault Timer :=
  match q.heap a with
  | some t => .ok t
  | none => .error .dangling

def store (q : TimerQueue) (a : Nat) (t : Timer) : TimerQueue :=
  { q with heap := Function.update q.heap a (some t) }

/-- `delete timer`. -/
def delete (q : TimerQueue) (a : Nat) : Except Fault TimerQueue := do
  let t ← q.deref a
  return { q with heap := Function.update q.heap a none, deleted := q.deleted ++ [t.sequence] }

def requireSizes (q : TimerQueue) : Except Fault Unit :=
  require (q.timers.size = q.activeTimers.size) "timers_.size() == active_timers_.size()"

/-- `ite == timers_.end() || when < ite->first` at `timers_.begin()`. -/
def earliest (q : TimerQueue) (when : Timestamp) : Bool :=
  q.timers.first.all fun e => when < e.when

def insert (q : TimerQueue) (a : Nat) : Except Fault (TimerQueue × Bool) := do
  q.requireSizes
  let t ← q.deref a
  let earliest := q.earliest t.expiration
  let r := q.timers.insert (.mk t.expiration a)
  require r.2 "result.second"
  let r' := q.activeTimers.insert (.mk a t.sequence)
  require r'.2 "result.second"
  let q := { q with timers := r.1, activeTimers := r'.1 }
  q.requireSizes
  return (q, earliest)

def resetTimerfd (q : TimerQueue) (expiration clock : Timestamp) : TimerQueue :=
  { q with timerfd := q.timerfd ++ [.settime clock (howMuchTimeFromNow expiration clock)] }

def addTimerInLoop (q : TimerQueue) (a : Nat) (clock : Timestamp) : Except Fault TimerQueue := do
  let r ← q.insert a
  if r.2 then do
    let t ← r.1.deref a
    return r.1.resetTimerfd t.expiration clock
  else return r.1

/-- The loop of `get_expired` over the entries it took out of `timers_`. -/
def eraseActive (q : TimerQueue) : List Entry → Except Fault TimerQueue
  | [] => .ok q
  | e :: es => do
    let t ← q.deref e.timer
    let r := q.activeTimers.erase (.mk e.timer t.sequence)
    require (r.2 = 1) "n == 1"
    eraseActive { q with activeTimers := r.1 } es

def getExpired (q : TimerQueue) (now : Timestamp) : Except Fault (TimerQueue × List Entry) := do
  q.requireSizes
  let sentry : Entry := .mk now uintptrMax
  let expired := q.timers.below sentry
  let rest := q.timers.above sentry
  require (rest.first.all fun e => now < e.when) "end == timers_.end() || now < end->first"
  let q ← eraseActive { q with timers := rest } expired
  q.requireSizes
  return (q, expired)

/-- The loop of `reset`. -/
def resetEntries (q : TimerQueue) (now : Timestamp) : List Entry → Except Fault TimerQueue
  | [] => .ok q
  | e :: es => do
    let t ← q.deref e.timer
    if t.repeats ∧ ActiveTimer.mk e.timer t.sequence ∉ q.cancelingTimers then
      let r ← (q.store e.timer (t.restart now)).insert e.timer
      resetEntries r.1 now es
    else
      let q ← q.delete e.timer
      resetEntries q now es

def reset (q : TimerQueue) (expired : List Entry) (now clock : Timestamp) :
    Except Fault TimerQueue := do
  let q ← q.resetEntries now expired
  match q.timers.first with
  | none => return q
  | some e =>
    let t ← q.deref e.timer
    return if Timestamp.valid t.expiration then q.resetTimerfd t.expiration clock else q

/-- `handle_read` up to the first callback. -/
def beginRead (q : TimerQueue) (now : Timestamp) : Except Fault (TimerQueue × List Entry) := do
  let r ← getExpired { q with timerfd := q.timerfd ++ [.read] } now
  return ({ r.1 with callingExpiredTimers := true, cancelingTimers := .empty }, r.2)

/-- `handle_read` after the last callback. -/
def endRead (q : TimerQueue) (expired : List Entry) (now clock : Timestamp) :
    Except Fault TimerQueue :=
  reset { q with callingExpiredTimers := false } expired now clock

/-- `cancel_in_loop` between its two assertions on the sizes. -/
def cancelFound (q : TimerQueue) (id : TimerID) : Except Fault TimerQueue :=
  let timer := ActiveTimer.mk id.timer id.sequence
  if timer ∈ q.activeTimers then do
    let t ← q.deref id.timer
    let r := q.timers.erase (.mk t.expiration id.timer)
    require (r.2 = 1) "n == 1"
    let q ← delete { q with timers := r.1 } id.timer
    return { q with activeTimers := (q.activeTimers.erase timer).1 }
  else if q.callingExpiredTimers then
    .ok { q with cancelingTimers := (q.cancelingTimers.insert timer).1 }
  else .ok q

def cancelInLoop (q : TimerQueue) (id : TimerID) : Except Fault TimerQueue := do
  q.requireSizes
  let q ← q.cancelFound id
  q.requireSizes
  return q

end TimerQueue

end DamnWebServer
