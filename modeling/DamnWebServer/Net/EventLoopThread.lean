import DamnWebServer.Base.Thread

/-!
# A thread with an event loop

`Event_Loop_Thread` (`net/event_loop_thread.cpp`): `start_loop()` starts a thread that makes
an `Event_Loop` on its own stack, puts its address into `loop_` and loops; it waits for the
address and returns it. The destructor tells the loop to quit and joins the thread.

`loop_` is guarded by a monitor, whose data says whether it points to the loop; the
destructor reads it without the mutex. `thread_` is the thread of `Base.Thread`, whose
`func_()` is `thread_func()`. Of the loop itself there is what the two sides do with it:
`loop()` stores `quit_ = false`, then goes round until `quit_` is set; `quit()` sets `quit_`,
then, outside the loop's thread, wakes the loop up. The loop may be gone by then.
-/

namespace DamnWebServer

open Monitor

/-- The critical sections of `Event_Loop_Thread::mutex_`. -/
inductive LoopSection where
  /-- In `start_loop()`. -/
  | getLoop
  | setLoop
  | clearLoop
  deriving DecidableEq, Repr

/-- Where the owner of the object is. -/
inductive HostPc where
  | fresh
  /-- In `thread_.start()`. -/
  | starting
  /-- Before the critical section of `start_loop()`. -/
  | locating
  | getting
  /-- `start_loop()` has returned the loop. -/
  | ready
  /-- In the destructor, with `loop_ != nullptr`: `loop_->quit()` is next. -/
  | quitting
  /-- In `loop_->quit()`: `quit_` is set, and `wakeup()` is next. -/
  | waking
  /-- `thread_.join()` is next. -/
  | closing
  | joining
  /-- The members are to be destroyed. -/
  | ending
  | gone
  deriving DecidableEq, Repr

/-- Where the new thread is in `thread_func()`. -/
inductive FuncPc where
  | absent
  /-- The loop is there; `callback_(&loop)` is next. -/
  | constructed
  /-- Before the section that sets `loop_`. -/
  | publishing
  | setting
  /-- `loop.loop()` is to be called. -/
  | entering
  | looping
  /-- Before the section that clears `loop_`. -/
  | retiring
  | clearing
  /-- The loop is to be destroyed. -/
  | leaving
  | done
  /-- The thread has ended. -/
  | finished
  deriving DecidableEq, Repr

structure EventLoopThread where
  thread : Thread
  /-- `mutex_`, `cond_` and `loop_`. -/
  monitor : Monitor.State ThreadSide LoopSection Bool (Option Bool)
  owner : HostPc
  func : FuncPc
  /-- `quit_` of the loop. -/
  quit : Bool
  /-- How many other threads are in `quit()`, with `wakeup()` next. -/
  others : Nat
  /-- What ended the run. -/
  fault : Option Fault

inductive LoopThreadEvent where
  | startLoop
  /-- A step inside `thread_.start()`, of the owner or of the new thread. -/
  | thread (e : ThreadEvent)
  /-- `thread_.start()` has returned. -/
  | started
  /-- An operation of `mutex_` or `cond_`. -/
  | monitor (e : Monitor.Event ThreadSide LoopSection (Option Bool))
  | construct
  | callback
  | enter
  /-- `loop()` returns. -/
  | leave
  | destruct
  | finish
  /-- The destructor looks at `loop_`. -/
  | look
  /-- `quit()` sets `quit_`. -/
  | quit
  /-- `quit()` reads `thread_id_` and wakes the loop up. -/
  | wakeup
  | join
  | joined
  | destroy
  /-- The same two steps of whoever else has the loop. -/
  | otherQuit
  | otherWakeup
  /-- `quit()` by what the loop's own thread calls. -/
  | ownQuit

/-- The call on `mutex_` that the owner is in. -/
def HostPc.call : HostPc → Option LoopSection
  | .getting => some .getLoop
  | .fresh | .starting | .locating | .ready | .quitting | .waking | .closing | .joining | .ending
  | .gone => none

def FuncPc.call : FuncPc → Option LoopSection
  | .setting => some .setLoop
  | .clearing => some .clearLoop
  | .absent | .constructed | .publishing | .entering | .looping | .retiring | .leaving | .done
  | .finished => none

/-- What `loop_` says, if the section that the new thread is in has been run or not. -/
def FuncPc.shows (run : Bool) : FuncPc → Bool
  | .absent | .constructed | .publishing | .leaving | .done | .finished => false
  | .entering | .looping | .retiring => true
  | .setting => run
  | .clearing => !run

/-- `loop_` has been set. -/
def FuncPc.published (run : Bool) : FuncPc → Bool
  | .absent | .constructed | .publishing => false
  | .setting => run
  | .entering | .looping | .retiring | .clearing | .leaving | .done | .finished => true

/-- `start_loop()` has returned, and the destructor not yet joined the thread. -/
def HostPc.past : HostPc → Bool
  | .ready | .quitting | .waking | .closing | .joining => true
  | .fresh | .starting | .locating | .getting | .ending | .gone => false

/-- The thread may have been joined. -/
def HostPc.joins : HostPc → Bool
  | .joining | .ending | .gone => true
  | .fresh | .starting | .locating | .getting | .ready | .quitting | .waking | .closing => false

/-- Where the owner is in `thread_`, outside `start_loop()`. -/
def HostPc.launch : HostPc → LaunchPc
  | .fresh | .starting | .locating | .getting | .ready | .quitting | .waking | .closing
  | .ending => .outside
  | .joining => .joining
  | .gone => .gone

theorem FuncPc.published_of_shows {pc : FuncPc} {run : Bool} (h : pc.shows run = true) :
    pc.published run = true := by
  cases pc with
  | setting => exact h
  | absent | constructed | publishing | leaving | done | finished => cases h
  | entering | looping | retiring | clearing => rfl

/-- The destructor has set `quit_`, or had no loop to set it in. -/
def HostPc.told : HostPc → Bool
  | .waking | .closing | .joining | .ending | .gone => true
  | .fresh | .starting | .locating | .getting | .ready | .quitting => false

/-- `loop()` has returned. -/
def FuncPc.ended : FuncPc → Bool
  | .retiring | .clearing | .leaving | .done | .finished => true
  | .absent | .constructed | .publishing | .setting | .entering | .looping => false

/-- The steps before the owner, with the thirty-three of `thread_.start()` and the fourteen of
    a critical section. -/
def HostPc.ahead : HostPc → Nat
  | .fresh => 54
  | .starting => 21
  | .locating => 20
  | .getting | .ready | .quitting => 5
  | .waking => 4
  | .closing => 3
  | .joining => 2
  | .ending => 1
  | .gone => 0

def FuncPc.ahead : FuncPc → Nat
  | .absent => 36
  | .constructed => 35
  | .publishing => 34
  | .setting | .entering => 19
  | .looping => 18
  | .retiring => 17
  | .clearing | .leaving => 2
  | .done => 1
  | .finished => 0

/-- The loop has been destroyed. -/
def FuncPc.destroyed : FuncPc → Bool
  | .done | .finished => true
  | .absent | .constructed | .publishing | .setting | .entering | .looping | .retiring | .clearing
  | .leaving => false

/-- The loop is on the new thread's stack. -/
def FuncPc.alive : FuncPc → Bool
  | .constructed | .publishing | .setting | .entering | .looping | .retiring | .clearing
  | .leaving => true
  | .absent | .done | .finished => false

namespace EventLoopThread

def getLoop : Procedure Bool (Option Bool) where
  -- `while (loop_ == nullptr)`
  guard loop := loop
  body loop := (loop, some loop)
  notice _ := .nobody

def setLoop : Procedure Bool (Option Bool) where
  guard _ := true
  body _ := (true, none)
  notice _ := .one

def clearLoop : Procedure Bool (Option Bool) where
  guard _ := true
  body _ := (false, none)
  notice _ := .nobody

def proc : LoopSection → Procedure Bool (Option Bool)
  | .getLoop => getLoop
  | .setLoop => setLoop
  | .clearLoop => clearLoop

def may (side : ThreadSide) (c : LoopSection) : Prop :=
  match side with
  | .owner => c = .getLoop
  | .created => c = .setLoop ∨ c = .clearLoop

/-- Before `start_loop()`. -/
def new : EventLoopThread where
  thread := .new
  monitor := .start false
  owner := .fresh
  func := .absent
  quit := false
  others := 0
  fault := none

def assert (w : EventLoopThread) (b : Bool) (text : String) (w' : EventLoopThread) : EventLoopThread :=
  if b then w' else { w with fault := some (.assertion text) }

/-- A thread uses a member of the object. -/
def touch (w w' : EventLoopThread) : EventLoopThread :=
  if w.owner = .gone then { w with fault := some .dangling } else w'

/-- A thread uses the loop. -/
def reach (w w' : EventLoopThread) : EventLoopThread :=
  if w.func.alive then w' else { w with fault := some .dangling }

/-- The destructor reads `loop_` once more, in `loop_->`. -/
def arrow (w w' : EventLoopThread) : EventLoopThread :=
  if w.monitor.data then w.reach w' else { w with fault := some .nullPointer }

/-- What an operation of the monitor is in the code of the two threads. -/
inductive Follow (w : EventLoopThread) :
    Monitor.Event ThreadSide LoopSection (Option Bool) → EventLoopThread → Prop where
  | inner {t : ThreadSide} : Follow w (.inner t) w
  | wake {t : ThreadSide} : Follow w (.wake t) w
  | callGet (howner : w.owner = .locating) :
      Follow w (.call .owner .getLoop) { w with owner := .getting }
  | callSet (hfunc : w.func = .publishing) :
      Follow w (.call .created .setLoop) { w with func := .setting }
  | callClear (hfunc : w.func = .retiring) :
      Follow w (.call .created .clearLoop) { w with func := .clearing }
  | returnGet {r : Option Bool} (howner : w.owner = .getting) :
      Follow w (.return .owner .getLoop r) { w with owner := .ready }
  | returnSet {r : Option Bool} (hfunc : w.func = .setting) :
      Follow w (.return .created .setLoop r) { w with func := .entering }
  | returnClear {r : Option Bool} (hfunc : w.func = .clearing) :
      Follow w (.return .created .clearLoop r) { w with func := .leaving }

inductive Step (w : EventLoopThread) : LoopThreadEvent → EventLoopThread → Prop where
  | startLoop {t : Thread} (hfault : w.fault = none) (howner : w.owner = .fresh)
      (hthread : Thread.Step w.thread .start t) :
      Step w .startLoop (w.assert (!w.thread.started) "!thread_.started()"
        { w with thread := t, owner := .starting })
  | thread {e : ThreadEvent} {t : Thread} (hfault : w.fault = none) (hinside : e.inStart = true)
      (hthread : Thread.Step w.thread e t) : Step w (.thread e) { w with thread := t }
  | started (hfault : w.fault = none) (howner : w.owner = .starting)
      (hback : w.thread.owner = .outside) : Step w .started { w with owner := .locating }
  | monitor {e : Monitor.Event ThreadSide LoopSection (Option Bool)}
      {m : Monitor.State ThreadSide LoopSection Bool (Option Bool)} {w' : EventLoopThread}
      (hfault : w.fault = none) (hfollow : Follow w e w')
      (hmonitor : Monitor.Step proc may w.monitor e m) :
      Step w (.monitor e) (w.touch { w' with monitor := m })
  | construct (hfault : w.fault = none) (hfunc : w.func = .absent)
      (hrunning : w.thread.created = .running) :
      Step w .construct { w with func := .constructed, quit := false }
  | callback (hfault : w.fault = none) (hfunc : w.func = .constructed) :
      Step w .callback (w.touch { w with func := .publishing })
  /-- A `quit()` that came before is forgotten. -/
  | enter (hfault : w.fault = none) (hfunc : w.func = .entering) :
      Step w .enter { w with func := .looping, quit := false }
  | leave (hfault : w.fault = none) (hfunc : w.func = .looping) (hquit : w.quit = true) :
      Step w .leave { w with func := .retiring }
  | destruct (hfault : w.fault = none) (hfunc : w.func = .leaving) :
      Step w .destruct { w with func := .done }
  | finish {t : Thread} (hfault : w.fault = none) (hfunc : w.func = .done)
      (hthread : Thread.Step w.thread .finish t) :
      Step w .finish { w with thread := t, func := .finished }
  | look (hfault : w.fault = none) (howner : w.owner = .fresh ∨ w.owner = .ready) :
      Step w .look { w with owner := if w.monitor.data then .quitting else .ending }
  | quit (hfault : w.fault = none) (howner : w.owner = .quitting) :
      Step w .quit (w.arrow { w with quit := true, owner := .waking })
  /-- `wakeup()` is the last use of the loop: what `is_in_loop_thread()` reads before it is there
      if `wakeup_fd_` is. -/
  | wakeup (hfault : w.fault = none) (howner : w.owner = .waking) :
      Step w .wakeup (w.reach { w with owner := .closing })
  | join {t : Thread} (hfault : w.fault = none) (howner : w.owner = .closing)
      (hthread : Thread.Step w.thread .join t) :
      Step w .join { w with thread := t, owner := .joining }
  | joined {t : Thread} (hfault : w.fault = none) (howner : w.owner = .joining)
      (hthread : Thread.Step w.thread .joined t) :
      Step w .joined { w with thread := t, owner := .ending }
  /-- First the mutex is destroyed, then the thread. -/
  | destroy {t : Thread} (hfault : w.fault = none) (howner : w.owner = .ending)
      (hthread : Thread.Step w.thread .destroy t) :
      Step w .destroy (w.assert (w.monitor.holder = none) "holder_ == 0"
        { w with thread := t, owner := .gone })
  | otherQuit (hfault : w.fault = none) (halive : w.func.alive = true) :
      Step w .otherQuit { w with quit := true, others := w.others + 1 }
  | otherWakeup (hfault : w.fault = none) (hothers : 0 < w.others) :
      Step w .otherWakeup (w.reach { w with others := w.others - 1 })
  /-- In `callback_(&loop)`, or in a callback or a functor of the loop. -/
  | ownQuit (hfault : w.fault = none) (hfunc : w.func = .constructed ∨ w.func = .looping) :
      Step w .ownQuit { w with quit := true }

theorem Step.fault {w w' : EventLoopThread} {s : LoopThreadEvent} (h : Step w s w') : w.fault = none := by
  cases h <;> assumption

def system : Transition.System EventLoopThread LoopThreadEvent where
  init w := w = new
  step := Step

/-- Only the thread that can set `loop_` lets the owner go on, and the owner is the only one
    that waits. -/
theorem announces : Announces proc may := by
  intro c d s _ hclosed hopen
  cases d with
  | setLoop | clearLoop => cases hclosed
  | getLoop =>
    cases c with
    | getLoop =>
      rw [show s = false from hclosed] at hopen
      cases hopen
    | clearLoop => cases hopen
    | setLoop =>
      refine Or.inr ⟨rfl, fun t u c d hc hd hblock hblock' => ?_⟩
      have howner : ∀ {t c}, may t c → Blocks proc c → t = .owner := by
        intro t c hmay hblocks
        cases t with
        | owner => rfl
        | created =>
          obtain ⟨s, hs⟩ := hblocks
          rcases hmay with rfl | rfl <;> cases hs
      rw [howner hc hblock, howner hd hblock']

variable {w w' w'' : EventLoopThread} {e : Monitor.Event ThreadSide LoopSection (Option Bool)}
  {m : Monitor.State ThreadSide LoopSection Bool (Option Bool)}

/-- The calls that the code of the two threads is in. -/
def calls (w : EventLoopThread) (side : ThreadSide) : Option LoopSection :=
  match side with
  | .owner => w.owner.call
  | .created => w.func.call

/-- The section that the new thread is in has been run. -/
def run (w : EventLoopThread) : Bool := (w.monitor.phase .created).result.isSome

/-- What holds whoever quits the loop. -/
structure Inv (w : EventLoopThread) : Prop where
  thread : w.thread.Inv
  exclusive : Exclusive w.monitor
  permitted : Permitted may w.monitor
  alert : Alert proc may w.monitor.data w.monitor.phase
  calls : w.monitor.calls = w.calls
  fresh : w.owner = .fresh → w.thread.started = false
  starting : w.owner = .starting → w.thread.owner.within = true ∨ w.thread.owner = .outside
  launch : w.owner ≠ .starting → w.thread.owner = w.owner.launch
  counted : w.func ≠ .absent → w.thread.created.counted = true
  finished : w.thread.created = .finished ↔ w.func = .finished
  data : w.monitor.data = w.func.shows w.run
  /-- Whoever has got the loop got it when it was there. -/
  seen : w.owner.past = true ∨ (w.monitor.phase .owner).result ≠ none → w.func.published w.run = true
  joined : w.thread.joined = true → w.owner.joins = true

theorem new_inv : Inv new where
  thread := Thread.new_inv
  exclusive := start_exclusive false
  permitted := start_permitted may false
  alert := alert_outside proc may false
  calls := by
    funext side
    cases side <;> rfl
  fresh _ := rfl
  starting h := by cases h
  launch _ := rfl
  counted h := absurd rfl h
  finished := ⟨fun h => absurd h (by decide), fun h => absurd h (by decide)⟩
  data := rfl
  seen h := by
    rcases h with h | h
    · cases h
    · exact absurd rfl h
  joined h := by cases h

theorem follow_calls (h : Follow w e w') : w'.calls = e.calls w.calls := by
  cases h with
  | inner | wake => rfl
  | callGet _ | callSet _ | callClear _ | returnGet _ | returnSet _ | returnClear _ =>
    funext side
    cases side <;> rfl

/-- Where the code of both threads is in no call, nobody is in the monitor. -/
theorem Inv.phases_idle (h : Inv w) (howner : w.owner.call = none) (hfunc : w.func.call = none)
    (side : ThreadSide) : (w.monitor.phase side).call = none := by
  refine (congrFun h.calls side).trans ?_
  cases side with
  | owner => exact howner
  | created => exact hfunc

/-- A thread with no call is outside, and has no result. -/
theorem Inv.result_none (h : Inv w) {side : ThreadSide} (hcall : w.calls side = none) :
    (w.monitor.phase side).result = none := by
  have hout : (w.monitor.phase side).call = none := (congrFun h.calls side).trans hcall
  rw [Phase.eq_outside hout]
  rfl

/-- The body of the section that the new thread is in. -/
theorem Inv.section_created (h : Inv w) {c : LoopSection}
    (hphase : (w.monitor.phase .created).call = some c) :
    w.func = .setting ∧ c = .setLoop ∨ w.func = .clearing ∧ c = .clearLoop := by
  have hcall : w.func.call = some c := (congrFun h.calls .created).symm.trans hphase
  cases hfunc : w.func <;> rw [hfunc] at hcall <;> cases hcall
  · exact Or.inl ⟨rfl, rfl⟩
  · exact Or.inr ⟨rfl, rfl⟩

theorem Inv.section_owner (h : Inv w) {c : LoopSection}
    (hphase : (w.monitor.phase .owner).call = some c) : w.owner = .getting ∧ c = .getLoop := by
  have hcall : w.owner.call = some c := (congrFun h.calls .owner).symm.trans hphase
  cases howner : w.owner <;> rw [howner] at hcall <;> cases hcall
  exact ⟨rfl, rfl⟩

/-- What is to be kept of `loop_` when the monitor becomes `m`. -/
def Shown (w : EventLoopThread) (m : Monitor.State ThreadSide LoopSection Bool (Option Bool)) : Prop :=
  m.data = w.func.shows (m.phase .created).result.isSome ∧
    (w.owner.past = true ∨ (m.phase .owner).result ≠ none →
      w.func.published (m.phase .created).result.isSome = true)

/-- An operation that neither touches `loop_` nor ends a call. -/
theorem Inv.shown_same (h : Inv w) (hfollow : Follow w e w') (hreturn : ∀ t c r, e ≠ .return t c r)
    (hdata : m.data = w.monitor.data)
    (hresult : ∀ t, (m.phase t).result = (w.monitor.phase t).result) : Shown w' m := by
  unfold Shown
  rw [hdata, hresult .created, hresult .owner]
  cases hfollow with
  | inner | wake => exact ⟨h.data, h.seen⟩
  | callGet howner =>
    refine ⟨h.data, fun hseen => ?_⟩
    rcases hseen with hpast | hresult
    · cases hpast
    · have hcall : w.calls .owner = none := by
        show w.owner.call = none
        rw [howner]
        rfl
      exact absurd (h.result_none hcall) hresult
  | callSet hfunc =>
    have hcall : w.calls .created = none := by
      show w.func.call = none
      rw [hfunc]
      rfl
    have hnone : (w.monitor.phase .created).result = none := h.result_none hcall
    refine ⟨?_, fun hseen => ?_⟩
    · rw [h.data, hfunc, hnone]
      rfl
    · have hpublished := h.seen hseen
      rw [hfunc] at hpublished
      cases hpublished
  | callClear hfunc =>
    have hcall : w.calls .created = none := by
      show w.func.call = none
      rw [hfunc]
      rfl
    have hnone : (w.monitor.phase .created).result = none := h.result_none hcall
    refine ⟨?_, fun _ => rfl⟩
    rw [h.data, hfunc, hnone]
    rfl
  | returnGet _ | returnSet _ | returnClear _ => exact absurd rfl (hreturn _ _ _)

/-- A body: the owner finds `loop_` set, and the new thread sets or clears it. -/
theorem Inv.shown_body (h : Inv w) {t : ThreadSide} {c : LoopSection}
    (hphase : w.monitor.phase t = .testing c) (hguard : (proc c).guard w.monitor.data = true)
    (hdata : m.data = ((proc c).body w.monitor.data).1)
    (hnew : m.phase t = .notifying c ((proc c).body w.monitor.data).2)
    (hothers : ∀ u, u ≠ t → m.phase u = w.monitor.phase u) : Shown w m := by
  have hcall : (w.monitor.phase t).call = some c := by
    rw [hphase]
    rfl
  cases t with
  | owner =>
    obtain ⟨_, rfl⟩ := h.section_owner hcall
    have hshown : w.monitor.data = true := hguard
    have hpublished : w.func.published w.run = true := FuncPc.published_of_shows (h.data.symm.trans hshown)
    have hsame : m.phase .created = w.monitor.phase .created := hothers .created (by decide)
    unfold Shown
    rw [hsame, hdata]
    exact ⟨h.data, fun _ => hpublished⟩
  | created =>
    unfold Shown
    rw [hnew, hdata]
    rcases h.section_created hcall with ⟨hfunc, rfl⟩ | ⟨hfunc, rfl⟩ <;> rw [hfunc]
    · exact ⟨rfl, fun _ => rfl⟩
    · exact ⟨rfl, fun _ => rfl⟩

/-- A return, with the result of the body that has been run. -/
theorem Inv.shown_return (h : Inv w) {t : ThreadSide} {c : LoopSection} {r : Option Bool}
    (hfollow : Follow w (.return t c r) w') (hphase : w.monitor.phase t = .unlocking c r)
    (hdata : m.data = w.monitor.data) (hnew : m.phase t = .outside)
    (hothers : ∀ u, u ≠ t → m.phase u = w.monitor.phase u) : Shown w' m := by
  have hrun : (w.monitor.phase t).result.isSome = true := by
    rw [hphase]
    rfl
  cases hfollow with
  | returnGet _ =>
    have hsame : m.phase .created = w.monitor.phase .created := hothers .created (by decide)
    have hpublished : w.func.published w.run = true := by
      refine h.seen (Or.inr ?_)
      rw [hphase]
      exact Option.some_ne_none _
    unfold Shown
    rw [hsame, hdata]
    exact ⟨h.data, fun _ => hpublished⟩
  | returnSet hfunc | returnClear hfunc =>
    refine ⟨?_, fun _ => rfl⟩
    have hshows : w.monitor.data = w.func.shows (w.monitor.phase .created).result.isSome := h.data
    rw [hdata, hshows, hfunc, hrun]
    rfl

theorem Inv.shown (h : Inv w) (hfollow : Follow w e w')
    (hmonitor : Monitor.Step proc may w.monitor e m) : Shown w' m := by
  rcases hmonitor.effect with ⟨hreturn, hdata, _, hresult⟩ |
    ⟨t, c, rfl, hphase, hguard, hdata, _, hnew, hothers⟩ |
    ⟨t, c, r, rfl, hphase, hdata, _, hnew, hothers⟩
  · exact h.shown_same hfollow hreturn hdata hresult
  · cases hfollow
    exact h.shown_body hphase hguard hdata hnew hothers
  · exact h.shown_return hfollow hphase hdata hnew hothers

/-- Before its end the new thread may go from one place to another. -/
theorem Inv.finished_iff (h : Inv w) {pc : FuncPc} (hold : w.func ≠ .finished) (hnew : pc ≠ .finished) :
    w.thread.created = .finished ↔ pc = .finished := by
  rw [h.finished]
  exact iff_of_false hold hnew

/-- An operation of the monitor, with the code that makes it. -/
theorem Inv.monitor (h : Inv w) (hfollow : Follow w e w')
    (hmonitor : Monitor.Step proc may w.monitor e m) : Inv { w' with monitor := m } := by
  obtain ⟨hdata, hseen⟩ := h.shown hfollow hmonitor
  have hcalls : m.calls = w'.calls := by
    rw [hmonitor.calls, h.calls, follow_calls hfollow]
  have hexclusive := h.exclusive.step hmonitor
  have hpermitted := h.permitted.step hmonitor
  have halert := h.alert.step h.exclusive h.permitted announces hmonitor
  cases hfollow with
  | inner | wake =>
    exact ⟨h.thread, hexclusive, hpermitted, halert, hcalls, h.fresh, h.starting, h.launch, h.counted,
      h.finished, hdata, hseen, h.joined⟩
  | callGet howner | returnGet howner =>
    have hlaunch : w.thread.owner = .outside := by
      rw [h.launch (by rw [howner]; decide), howner]
      rfl
    refine ⟨h.thread, hexclusive, hpermitted, halert, hcalls, fun hpc => ?_, fun hpc => ?_,
      fun _ => hlaunch, h.counted, h.finished, hdata, hseen, fun hjoined => ?_⟩
    · cases hpc
    · cases hpc
    · have hjoins := h.joined hjoined
      rw [howner] at hjoins
      cases hjoins
  | callSet hfunc | callClear hfunc | returnSet hfunc | returnClear hfunc =>
    refine ⟨h.thread, hexclusive, hpermitted, halert, hcalls, h.fresh, h.starting, h.launch,
      fun _ => h.counted ?_, h.finished_iff ?_ (fun hpc => by cases hpc), hdata, hseen, h.joined⟩
    · rw [hfunc]
      decide
    · rw [hfunc]
      decide

/-- The new thread moves outside the monitor. -/
theorem Inv.funcMove (h : Inv w) (pc : FuncPc) (quit : Bool) (hcalls : w.func.call = pc.call)
    (hcounted : w.thread.created.counted = true) (hold : w.func ≠ .finished) (hnew : pc ≠ .finished)
    (hshows : w.func.shows w.run = pc.shows w.run)
    (hpublished : w.func.published w.run = pc.published w.run) :
    Inv { w with func := pc, quit := quit } where
  thread := h.thread
  exclusive := h.exclusive
  permitted := h.permitted
  alert := h.alert
  calls := by
    rw [h.calls]
    funext side
    cases side with
    | owner => rfl
    | created => exact hcalls
  fresh := h.fresh
  starting := h.starting
  launch := h.launch
  counted _ := hcounted
  finished := h.finished_iff hold hnew
  data := h.data.trans hshows
  seen hseen := hpublished ▸ h.seen hseen
  joined := h.joined

/-- The owner moves outside the monitor, and in `thread_`. -/
theorem Inv.hostMove (h : Inv w) (pc : HostPc) (quit : Bool) {t : Thread} (ht : t.Inv) (hcalls : w.owner.call = pc.call)
    (hcreated : t.created = w.thread.created) (hfresh : pc = .fresh → t.started = false)
    (hstarting : pc = .starting → t.owner.within = true ∨ t.owner = .outside)
    (hlaunch : pc ≠ .starting → t.owner = pc.launch) (hpast : pc.past = true → w.owner.past = true)
    (hjoined : t.joined = true → pc.joins = true) :
    Inv { w with thread := t, owner := pc, quit := quit } where
  thread := ht
  exclusive := h.exclusive
  permitted := h.permitted
  alert := h.alert
  calls := by
    rw [h.calls]
    funext side
    cases side with
    | owner => exact hcalls
    | created => rfl
  fresh := hfresh
  starting := hstarting
  launch := hlaunch
  counted hfunc := hcreated ▸ h.counted hfunc
  finished := by
    show t.created = _ ↔ _
    rw [hcreated]
    exact h.finished
  data := h.data
  seen hseen := by
    rcases hseen with hp | hresult
    · exact h.seen (Or.inl (hpast hp))
    · exact h.seen (Or.inr hresult)
  joined := hjoined

theorem Inv.faulted (h : Inv w) (f : Fault) : Inv { w with fault := some f } :=
  ⟨h.thread, h.exclusive, h.permitted, h.alert, h.calls, h.fresh, h.starting, h.launch, h.counted,
    h.finished, h.data, h.seen, h.joined⟩

theorem Inv.touch (h : Inv w) (h' : Inv w') : Inv (w.touch w') := by
  unfold EventLoopThread.touch
  split
  · exact h.faulted _
  · exact h'

theorem Inv.assert (h : Inv w) {b : Bool} {text : String} (h' : Inv w') : Inv (w.assert b text w') := by
  unfold EventLoopThread.assert
  split
  · exact h'
  · exact h.faulted _

theorem Inv.reach (h : Inv w) (h' : Inv w') : Inv (w.reach w') := by
  unfold EventLoopThread.reach
  split
  · exact h'
  · exact h.faulted _

theorem Inv.arrow (h : Inv w) (h' : Inv w') : Inv (w.arrow w') := by
  unfold EventLoopThread.arrow
  split
  · exact h.reach h'
  · exact h.faulted _

/-- Before `start_loop()` there is no loop. -/
theorem Inv.absent (h : Inv w) (hstarted : w.thread.started = false) :
    w.func = .absent ∧ w.thread.created = .absent := by
  have hcreated : w.thread.created = .absent := h.thread.absent.mpr (Or.inl hstarted)
  refine ⟨?_, hcreated⟩
  by_contra hfunc
  have hcounted := h.counted hfunc
  rw [hcreated] at hcounted
  cases hcounted

/-- Once `start_loop()` has returned, the thread has been started. -/
theorem Inv.started_of_past (h : Inv w) (hpast : w.owner.past = true) : w.thread.started = true := by
  by_contra hno
  have hpublished := h.seen (Or.inl hpast)
  rw [(h.absent (Bool.not_eq_true _ ▸ hno)).1] at hpublished
  cases hpublished

theorem Inv.joined_false (h : Inv w) (hjoins : w.owner.joins = false) : w.thread.joined = false := by
  by_contra hno
  rw [h.joined (Bool.not_eq_false _ ▸ hno)] at hjoins
  cases hjoins

/-- Only `start_loop()` makes steps of `thread_.start()`. -/
theorem Inv.starting_of_inStart (h : Inv w) {s : ThreadEvent} {t : Thread} (hin : s.inStart = true)
    (hthread : Thread.Step w.thread s t) : w.owner = .starting := by
  by_contra hno
  have hwithin := (h.thread.inStart hin hthread).1
  rw [h.launch hno] at hwithin
  cases howner : w.owner <;> rw [howner] at hwithin <;> cases hwithin

theorem Inv.startLoop (h : Inv w) (howner : w.owner = .fresh) {t : Thread}
    (hthread : Thread.Step w.thread .start t) : Inv { w with thread := t, owner := .starting } := by
  have hfresh := h.fresh howner
  have ht : t.Inv := h.thread.step (s := ThreadEvent.start) ⟨hfresh, hthread⟩
  have hjoined := h.joined_false (by rw [howner]; rfl)
  cases hthread with
  | start _ hout =>
    rw [Thread.assert_true (by rw [hfresh]; rfl)] at ht ⊢
    refine h.hostMove .starting w.quit ht (by rw [howner]; rfl) rfl (fun hpc => by cases hpc)
      (fun _ => Or.inl rfl) (fun hpc => absurd rfl hpc) (fun hpc => by cases hpc) fun hj => ?_
    rw [show w.thread.joined = true from hj] at hjoined
    cases hjoined

/-- The new thread begins to count only from inside `thread_.start()`. -/
theorem Inv.inStart (h : Inv w) {s : ThreadEvent} {t : Thread} (hin : s.inStart = true)
    (hthread : Thread.Step w.thread s t) : Inv { w with thread := t } := by
  have howner := h.starting_of_inStart hin hthread
  obtain ⟨_, hback, hjoined, hcreated⟩ := h.thread.inStart hin hthread
  have ht : t.Inv := h.thread.step ⟨Thread.respects_of_inStart hin _, hthread⟩
  refine ⟨ht, h.exclusive, h.permitted, h.alert, h.calls, fun hpc => ?_, fun _ => hback,
    fun hpc => absurd howner hpc, fun hfunc => ?_, ?_, h.data, h.seen, fun hj => h.joined (hjoined ▸ hj)⟩
  · rw [show w.owner = .fresh from hpc] at howner
    cases howner
  · have hcounted := h.counted hfunc
    rcases hcreated with hsame | ⟨hno, _⟩
    · exact hsame ▸ hcounted
    · rw [hno] at hcounted
      cases hcounted
  · rcases hcreated with hsame | ⟨hno, hnot⟩
    · show t.created = _ ↔ _
      rw [hsame]
      exact h.finished
    · refine iff_of_false hnot fun hfunc => ?_
      have hcounted := h.counted (by rw [show w.func = .finished from hfunc]; decide)
      rw [hno] at hcounted
      cases hcounted

theorem Inv.started (h : Inv w) (howner : w.owner = .starting) (hback : w.thread.owner = .outside) :
    Inv { w with owner := .locating } := by
  refine h.hostMove .locating w.quit h.thread (by rw [howner]; rfl) rfl (fun hpc => by cases hpc)
    (fun hpc => by cases hpc) (fun _ => hback) (fun hpc => by cases hpc) fun hj => ?_
  rw [h.joined_false (by rw [howner]; rfl)] at hj
  cases hj

theorem Inv.construct (h : Inv w) (hfunc : w.func = .absent) (hrunning : w.thread.created = .running) :
    Inv { w with func := .constructed, quit := false } :=
  h.funcMove .constructed false (by rw [hfunc]; rfl) (by rw [hrunning]; rfl)
    (by rw [hfunc]; decide) (by decide) (by rw [hfunc]; rfl) (by rw [hfunc]; rfl)

theorem Inv.callback (h : Inv w) (hfunc : w.func = .constructed) : Inv { w with func := .publishing } :=
  h.funcMove .publishing w.quit (by rw [hfunc]; rfl) (h.counted (by rw [hfunc]; decide))
    (by rw [hfunc]; decide) (by decide) (by rw [hfunc]; rfl) (by rw [hfunc]; rfl)

theorem Inv.enter (h : Inv w) (hfunc : w.func = .entering) :
    Inv { w with func := .looping, quit := false } :=
  h.funcMove .looping false (by rw [hfunc]; rfl) (h.counted (by rw [hfunc]; decide))
    (by rw [hfunc]; decide) (by decide) (by rw [hfunc]; rfl) (by rw [hfunc]; rfl)

theorem Inv.leave (h : Inv w) (hfunc : w.func = .looping) : Inv { w with func := .retiring } :=
  h.funcMove .retiring w.quit (by rw [hfunc]; rfl) (h.counted (by rw [hfunc]; decide))
    (by rw [hfunc]; decide) (by decide) (by rw [hfunc]; rfl) (by rw [hfunc]; rfl)

theorem Inv.destruct (h : Inv w) (hfunc : w.func = .leaving) : Inv { w with func := .done } :=
  h.funcMove .done w.quit (by rw [hfunc]; rfl) (h.counted (by rw [hfunc]; decide))
    (by rw [hfunc]; decide) (by decide) (by rw [hfunc]; rfl) (by rw [hfunc]; rfl)

theorem Inv.finish (h : Inv w) (hfunc : w.func = .done) {t : Thread}
    (hthread : Thread.Step w.thread .finish t) : Inv { w with thread := t, func := .finished } := by
  have ht : t.Inv := h.thread.step (s := ThreadEvent.finish) ⟨trivial, hthread⟩
  cases hthread with
  | finish _ _ =>
    refine ⟨ht, h.exclusive, h.permitted, h.alert, ?_, h.fresh, h.starting, h.launch, fun _ => rfl,
      iff_of_true rfl rfl, ?_, fun _ => rfl, h.joined⟩
    · rw [h.calls]
      funext side
      cases side with
      | owner => rfl
      | created =>
        show w.func.call = none
        rw [hfunc]
        rfl
    · show w.monitor.data = false
      rw [h.data, hfunc]
      rfl

/-- Before `start_loop()` the destructor finds no loop, so that it finds one only when
    `start_loop()` has returned. -/
theorem Inv.look (h : Inv w) (howner : w.owner = .fresh ∨ w.owner = .ready) :
    Inv { w with owner := if w.monitor.data then .quitting else .ending } := by
  have hjoins : w.owner.joins = false := by
    rcases howner with howner | howner <;> rw [howner] <;> rfl
  have hlaunch : w.thread.owner = .outside := by
    rcases howner with howner | howner <;> rw [h.launch (by rw [howner]; decide), howner] <;> rfl
  have hcall : w.owner.call = none := by
    rcases howner with howner | howner <;> rw [howner] <;> rfl
  have hjoined : ∀ {pc : HostPc}, w.thread.joined = true → pc.joins = true := fun hj => by
    rw [h.joined_false hjoins] at hj
    cases hj
  cases hdata : w.monitor.data with
  | false =>
    exact h.hostMove .ending w.quit h.thread hcall rfl (fun hpc => by cases hpc)
      (fun hpc => by cases hpc) (fun _ => hlaunch) (fun hpc => by cases hpc) hjoined
  | true =>
    have hready : w.owner = .ready := by
      rcases howner with howner | howner
      · rw [h.data, (h.absent (h.fresh howner)).1] at hdata
        cases hdata
      · exact howner
    exact h.hostMove .quitting w.quit h.thread hcall rfl (fun hpc => by cases hpc)
      (fun hpc => by cases hpc) (fun _ => hlaunch) (fun _ => by rw [hready]; rfl) hjoined

/-- The owner goes on in `loop_->quit()`. -/
theorem Inv.tell (h : Inv w) (pc : HostPc) (quit : Bool) (howner : w.owner = .quitting ∨ w.owner = .waking)
    (hnew : pc = .waking ∨ pc = .closing) : Inv { w with owner := pc, quit := quit } := by
  have hlaunch : w.thread.owner = .outside := by
    rcases howner with howner | howner <;> rw [h.launch (by rw [howner]; decide), howner] <;> rfl
  have hcall : w.owner.call = none := by
    rcases howner with howner | howner <;> rw [howner] <;> rfl
  have hpast : w.owner.past = true := by
    rcases howner with howner | howner <;> rw [howner] <;> rfl
  have hjoined : w.thread.joined = false := by
    refine h.joined_false ?_
    rcases howner with howner | howner <;> rw [howner] <;> rfl
  rcases hnew with rfl | rfl
  · refine h.hostMove .waking quit h.thread hcall rfl (fun hpc => by cases hpc)
      (fun hpc => by cases hpc) (fun _ => hlaunch) (fun _ => hpast) fun hj => ?_
    rw [hjoined] at hj
    cases hj
  · refine h.hostMove .closing quit h.thread hcall rfl (fun hpc => by cases hpc)
      (fun hpc => by cases hpc) (fun _ => hlaunch) (fun _ => hpast) fun hj => ?_
    rw [hjoined] at hj
    cases hj

theorem Inv.quit (h : Inv w) (howner : w.owner = .quitting) :
    Inv { w with quit := true, owner := .waking } :=
  h.tell .waking true (Or.inl howner) (Or.inl rfl)

theorem Inv.wakeup (h : Inv w) (howner : w.owner = .waking) : Inv { w with owner := .closing } :=
  h.tell .closing w.quit (Or.inr howner) (Or.inr rfl)

theorem Inv.join (h : Inv w) (howner : w.owner = .closing) {t : Thread}
    (hthread : Thread.Step w.thread .join t) : Inv { w with thread := t, owner := .joining } := by
  have hstarted := h.started_of_past (by rw [howner]; rfl)
  have hjoined := h.joined_false (by rw [howner]; rfl)
  have ht : t.Inv := h.thread.step (s := ThreadEvent.join) ⟨⟨hstarted, hjoined⟩, hthread⟩
  cases hthread with
  | join _ _ =>
    rw [Thread.assert_true hstarted, Thread.assert_true (by rw [hjoined]; rfl)] at ht ⊢
    exact h.hostMove .joining w.quit ht (by rw [howner]; rfl) rfl (fun hpc => by cases hpc)
      (fun hpc => by cases hpc) (fun _ => rfl) (fun _ => by rw [howner]; rfl) fun _ => rfl

theorem Inv.joinReturns (h : Inv w) (howner : w.owner = .joining) {t : Thread}
    (hthread : Thread.Step w.thread .joined t) : Inv { w with thread := t, owner := .ending } := by
  have ht : t.Inv := h.thread.step (s := ThreadEvent.joined) ⟨trivial, hthread⟩
  cases hthread with
  | joined _ _ _ =>
    exact h.hostMove .ending w.quit ht (by rw [howner]; rfl) rfl (fun hpc => by cases hpc)
      (fun hpc => by cases hpc) (fun _ => rfl) (fun hpc => by cases hpc) fun _ => rfl

theorem Inv.destroy (h : Inv w) (howner : w.owner = .ending) {t : Thread}
    (hthread : Thread.Step w.thread .destroy t) : Inv { w with thread := t, owner := .gone } := by
  have ht : t.Inv := h.thread.step (s := ThreadEvent.destroy) ⟨trivial, hthread⟩
  cases hthread with
  | destroy _ hout =>
    rw [Thread.assert_true (decide_eq_true (h.thread.holder_none hout))] at ht ⊢
    exact h.hostMove .gone w.quit ht (by rw [howner]; rfl) rfl (fun hpc => by cases hpc)
      (fun hpc => by cases hpc) (fun _ => rfl) (fun hpc => by cases hpc) fun _ => rfl

/-- What the other threads do to the loop bears on nothing else. -/
theorem Inv.others (h : Inv w) (quit : Bool) (n : Nat) : Inv { w with quit := quit, others := n } :=
  ⟨h.thread, h.exclusive, h.permitted, h.alert, h.calls, h.fresh, h.starting, h.launch, h.counted,
    h.finished, h.data, h.seen, h.joined⟩

theorem Inv.step (h : Inv w) {s : LoopThreadEvent} (hstep : Step w s w') : Inv w' := by
  cases hstep with
  | startLoop _ howner hthread => exact h.assert (h.startLoop howner hthread)
  | thread _ hin hthread => exact h.inStart hin hthread
  | started _ howner hback => exact h.started howner hback
  | monitor _ hfollow hmonitor => exact h.touch (h.monitor hfollow hmonitor)
  | construct _ hfunc hrunning => exact h.construct hfunc hrunning
  | callback _ hfunc => exact h.touch (h.callback hfunc)
  | enter _ hfunc => exact h.enter hfunc
  | leave _ hfunc _ => exact h.leave hfunc
  | destruct _ hfunc => exact h.destruct hfunc
  | finish _ hfunc hthread => exact h.finish hfunc hthread
  | look _ howner => exact h.look howner
  | quit _ howner => exact h.arrow (h.quit howner)
  | wakeup _ howner => exact h.reach (h.wakeup howner)
  | join _ howner hthread => exact h.join howner hthread
  | joined _ howner hthread => exact h.joinReturns howner hthread
  | destroy _ howner hthread => exact h.assert (h.destroy howner hthread)
  | otherQuit _ _ => exact h.others true (w.others + 1)
  | otherWakeup _ _ => exact h.reach (h.others w.quit (w.others - 1))
  | ownQuit _ _ => exact h.others true w.others

end EventLoopThread

end DamnWebServer
