import DamnWebServer.Lib.Transition
import DamnWebServer.Log.FixedBuffer

/-!
# The asynchronous logger

`Async_Logging` (`base/log/async_logging.h`, `base/log/async_logging.cpp`): the
front end that producers append to, the thread that writes full buffers to the log
file, and the owner that starts and stops it. Every `unique_ptr` may be null here,
and what dereferences a null one, or takes the last element of an empty vector,
fails.

A step of a producer is one `append`, which holds `mutex_` throughout. The swap
section of `thread_func` is one step too, but `wait_for` gives the mutex back in
between: the thread waits at a point of its own and may leave it at any time, by
the timeout if nothing else. The rest of `thread_func` holds no lock and goes
statement by statement.
-/

namespace DamnWebServer

/-- `Async_Logging::Buffer`. -/
abbrev LogBuffer := FixedBuffer largeBufferSize

/-- Where the thread of `thread_func` stands. -/
inductive BackPc where
  /-- `start()` has not been called. -/
  | notStarted
  /-- In front of the `while`: `output` and the two buffers are made. -/
  | entry
  | whileTest
  /-- `mutex_` is to be locked. -/
  | locking
  /-- In `cond_.wait_for`. -/
  | waiting
  /-- In the `for`, in front of this element. -/
  | writing (i : Nat)
  | trimming
  /-- `buffer1` is given back. -/
  | refilling1
  | refilling2
  | clearing
  /-- Behind the `while`. -/
  | leaving
  | finished
  deriving DecidableEq, Repr

/-- Where the owner of the logger stands. -/
inductive OwnerPc where
  | created
  | started
  /-- `stop()` has been called, `running_ = false` comes next. -/
  | stopping
  | notifying
  | joining
  /-- `stop()` has returned. -/
  | returned
  deriving DecidableEq, Repr

structure AsyncLogging where
  running : Bool
  currentBuffer : Option LogBuffer
  nextBuffer : Option LogBuffer
  buffers : List (Option LogBuffer)
  pc : BackPc
  buffer1 : Option LogBuffer
  buffer2 : Option LogBuffer
  buffersToWrite : List (Option LogBuffer)
  /-- The buffers passed to `Log_File::append` so far, as they were then. -/
  handed : List LogBuffer
  owner : OwnerPc
  /-- The messages that fit a buffer, in the order of their `append`s. -/
  appended : List (List Byte)
  /-- So many of them were appended when `stop()` was called. -/
  early : Nat

inductive AsyncStep where
  /-- A producer appends; `memory` is what a new buffer would be made of. -/
  | append (logline : List Byte) (memory : List Byte) (h : memory.length = largeBufferSize)
  | start
  | callStop
  | storeRunning
  | notify
  | join
  /-- The thread of `thread_func` goes on. -/
  | backend

/-- `*p` of a `unique_ptr`. -/
def deref {α : Type} : Option α → Except Fault α
  | some a => .ok a
  | none => .error .nullPointer

namespace AsyncLogging

/-- `Async_Logging(...)`. -/
def new : AsyncLogging where
  running := false
  currentBuffer := some .zeroed
  nextBuffer := some .zeroed
  buffers := []
  pc := .notStarted
  buffer1 := none
  buffer2 := none
  buffersToWrite := []
  handed := []
  owner := .created
  appended := []
  early := 0

/-- The record of an `append`. -/
def note (s : AsyncLogging) (logline : List Byte) : List (List Byte) :=
  if logline.length < largeBufferSize then s.appended ++ [logline] else s.appended

/-- `append(logline, len)`; `fresh` is the buffer that is made when there is no
    `next_buffer_`. -/
def append (s : AsyncLogging) (logline : List Byte) (fresh : LogBuffer) :
    Except Fault AsyncLogging := do
  let current ← deref s.currentBuffer
  if logline.length < current.avail then
    return { s with
      currentBuffer := some (current.append logline), appended := s.note logline }
  else
    let s := { s with
      buffers := s.buffers ++ [s.currentBuffer]
      currentBuffer := some (s.nextBuffer.getD fresh)
      nextBuffer := none }
    let current ← deref s.currentBuffer
    return { s with
      currentBuffer := some (current.append logline), appended := s.note logline }

/-- The swap section, once `buffers_` has been tested or waited for. -/
def swapSection (s : AsyncLogging) : AsyncLogging :=
  { s with
    pc := .writing 0
    buffersToWrite := s.buffers ++ [s.currentBuffer]
    buffers := s.buffersToWrite
    currentBuffer := s.buffer1
    buffer1 := none
    nextBuffer := if s.nextBuffer.isNone then s.buffer2 else s.nextBuffer
    buffer2 := if s.nextBuffer.isNone then none else s.buffer2 }

/-- `b = std::move(buffers_to_write.back()); pop_back(); b->reset()`. -/
def takeBack (bs : List (Option LogBuffer)) :
    Except Fault (LogBuffer × List (Option LogBuffer)) :=
  match bs.getLast? with
  | none => .error .emptyVector
  | some p => do
    let b ← deref p
    return (b.reset, bs.dropLast)

/-- The thread of `thread_func` goes on from where it stands. -/
def threadFunc (s : AsyncLogging) : Except Fault AsyncLogging :=
  match s.pc with
  | .notStarted | .finished => .ok s
  | .entry => .ok { s with pc := .whileTest, buffer1 := some .zeroed, buffer2 := some .zeroed }
  | .whileTest => .ok { s with pc := if s.running then .locking else .leaving }
  | .locking => .ok (if s.buffers.isEmpty then { s with pc := .waiting } else s.swapSection)
  | .waiting => .ok s.swapSection
  | .writing i =>
    match s.buffersToWrite[i]? with
    | some p => do
      let b ← deref p
      return { s with pc := .writing (i + 1), handed := s.handed ++ [b] }
    | none => .ok { s with pc := .trimming }
  | .trimming => .ok { s with pc := .refilling1, buffersToWrite := s.buffersToWrite.take 2 }
  | .refilling1 =>
    if s.buffer1.isNone then do
      let r ← takeBack s.buffersToWrite
      return { s with pc := .refilling2, buffer1 := some r.1, buffersToWrite := r.2 }
    else .ok { s with pc := .refilling2 }
  | .refilling2 =>
    if s.buffer2.isNone then do
      let r ← takeBack s.buffersToWrite
      return { s with pc := .clearing, buffer2 := some r.1, buffersToWrite := r.2 }
    else .ok { s with pc := .clearing }
  | .clearing => .ok { s with pc := .whileTest, buffersToWrite := [] }
  | .leaving => .ok { s with pc := .finished }

def perform (s : AsyncLogging) : AsyncStep → Except Fault AsyncLogging
  | .append logline memory h => s.append logline (.new memory h)
  | .start => .ok { s with owner := .started, running := true, pc := .entry }
  | .callStop => .ok { s with owner := .stopping, early := s.appended.length }
  | .storeRunning => .ok { s with owner := .notifying, running := false }
  | .notify => .ok { s with owner := .joining }
  | .join => .ok { s with owner := .returned }
  | .backend => s.threadFunc

/-- The owner calls `start()` once and then `stop()` once; `join` waits for the end of
    the thread. -/
def Enabled (s : AsyncLogging) : AsyncStep → Prop
  | .append _ _ _ => True
  | .start => s.owner = .created
  | .callStop => s.owner = .started
  | .storeRunning => s.owner = .stopping
  | .notify => s.owner = .notifying
  | .join => s.owner = .joining ∧ s.pc = .finished
  | .backend => s.pc ≠ .notStarted ∧ s.pc ≠ .finished

instance (s : AsyncLogging) (l : AsyncStep) : Decidable (s.Enabled l) :=
  match l with
  | .append _ _ _ => inferInstanceAs (Decidable True)
  | .start | .callStop | .storeRunning | .notify => inferInstanceAs (Decidable (_ = _))
  | .join | .backend => inferInstanceAs (Decidable (_ ∧ _))

/-- Any number of producers, the thread and the owner, in any interleaving. -/
def system : Transition.System AsyncLogging AsyncStep where
  init s := s = new
  step s l t := s.Enabled l ∧ s.perform l = .ok t

/-- The state after some steps, if they are enabled and return. -/
def after (s : AsyncLogging) (tr : List AsyncStep) : Option AsyncLogging :=
  Transition.System.follow Enabled (fun s l => (s.perform l).toOption) s tr

theorem run_of_after {s t : AsyncLogging} {tr : List AsyncStep} (h : s.after tr = some t) :
    system.Run s tr t := by
  refine .of_follow ?_ h
  intro s l t hl hperf
  exact ⟨hl, eq_ok_of_toOption hperf⟩

theorem deref_eq_ok {α : Type} {p : Option α} {a : α} (h : deref p = .ok a) : p = some a := by
  cases p with
  | none => cases h
  | some b =>
    cases h
    rfl

/-- What a step of `thread_func` can do. -/
inductive BackStep (s : AsyncLogging) : AsyncLogging → Prop where
  | rest (hpc : s.pc = .notStarted ∨ s.pc = .finished) : BackStep s s
  | entry (hpc : s.pc = .entry) :
      BackStep s { s with pc := .whileTest, buffer1 := some .zeroed, buffer2 := some .zeroed }
  | test (hpc : s.pc = .whileTest) :
      BackStep s { s with pc := if s.running then .locking else .leaving }
  | wait (hpc : s.pc = .locking) : BackStep s { s with pc := .waiting }
  | swap (hpc : s.pc = .locking ∨ s.pc = .waiting) : BackStep s s.swapSection
  | write {i : Nat} {b : LogBuffer} (hpc : s.pc = .writing i)
      (hb : s.buffersToWrite[i]? = some (some b)) :
      BackStep s { s with pc := .writing (i + 1), handed := s.handed ++ [b] }
  | written {i : Nat} (hpc : s.pc = .writing i) : BackStep s { s with pc := .trimming }
  | trim (hpc : s.pc = .trimming) :
      BackStep s { s with pc := .refilling1, buffersToWrite := s.buffersToWrite.take 2 }
  | refill1 {r : LogBuffer × List (Option LogBuffer)} (hpc : s.pc = .refilling1)
      (htake : takeBack s.buffersToWrite = .ok r) :
      BackStep s { s with pc := .refilling2, buffer1 := some r.1, buffersToWrite := r.2 }
  | keep1 (hpc : s.pc = .refilling1) : BackStep s { s with pc := .refilling2 }
  | refill2 {r : LogBuffer × List (Option LogBuffer)} (hpc : s.pc = .refilling2)
      (htake : takeBack s.buffersToWrite = .ok r) :
      BackStep s { s with pc := .clearing, buffer2 := some r.1, buffersToWrite := r.2 }
  | keep2 (hpc : s.pc = .refilling2) : BackStep s { s with pc := .clearing }
  | clear (hpc : s.pc = .clearing) : BackStep s { s with pc := .whileTest, buffersToWrite := [] }
  | leave (hpc : s.pc = .leaving) : BackStep s { s with pc := .finished }

theorem backStep_of_threadFunc {s t : AsyncLogging} (h : s.threadFunc = .ok t) : BackStep s t := by
  unfold threadFunc at h
  split at h
  · cases h
    exact .rest (Or.inl ‹_›)
  · cases h
    exact .rest (Or.inr ‹_›)
  · cases h
    exact .entry ‹_›
  · cases h
    exact .test ‹_›
  · cases h
    split
    · exact .wait ‹_›
    · exact .swap (Or.inl ‹_›)
  · cases h
    exact .swap (Or.inr ‹_›)
  · split at h
    · next p hp =>
      obtain ⟨b, hb, hend⟩ := bind_eq_ok h
      cases hend
      rw [deref_eq_ok hb] at hp
      exact .write ‹_› hp
    · cases h
      exact .written ‹_›
  · cases h
    exact .trim ‹_›
  · split at h
    · obtain ⟨r, hr, hend⟩ := bind_eq_ok h
      cases hend
      exact .refill1 ‹_› hr
    · cases h
      exact .keep1 ‹_›
  · split at h
    · obtain ⟨r, hr, hend⟩ := bind_eq_ok h
      cases hend
      exact .refill2 ‹_› hr
    · cases h
      exact .keep2 ‹_›
  · cases h
    exact .clear ‹_›
  · cases h
    exact .leave ‹_›

end AsyncLogging

end DamnWebServer
