import DamnWebServer.Base.CountDownLatch
import DamnWebServer.Base.Machine

/-!
# Threads

`Thread` (`base/thread.cpp`): the thread that owns the object, and the one that the object
creates. `start()` gives the new thread the addresses of `tid_` and `latch_` and waits on
the latch; what else the new thread needs it has a copy of in its `Thread_Data`. So the
object may be destroyed as soon as `start()` has returned, before the new thread ends.

The owner makes one call at a time. `pthread_create` may fail, and `start()` then leaves
the object as it was.
-/

namespace DamnWebServer

open Monitor CountDownLatch

inductive ThreadSide where
  | owner | created
  deriving DecidableEq, Repr

instance : Fintype ThreadSide where
  elems := {.owner, .created}
  complete side := by cases side <;> decide

/-- Where the owner is. -/
inductive LaunchPc where
  | outside
  /-- `started_` is set; `pthread_create` is next. -/
  | creating
  /-- `latch_.wait()` is to be called. -/
  | opening
  | waiting
  /-- `assert(tid_ > 0)` is next. -/
  | checking
  | joining
  /-- The object has been destroyed. -/
  | gone
  deriving DecidableEq, Repr

/-- Where the new thread is in `run_in_thread`. -/
inductive CreatedPc where
  | absent
  /-- `*tid_ = Current_Thread::tid()` is next. -/
  | storing
  /-- `latch_->count_down()` is to be called. -/
  | counting
  | inLatch
  /-- `func_()`. -/
  | running
  | finished
  deriving DecidableEq, Repr

structure Thread where
  started : Bool
  joined : Bool
  tid : Nat
  latch : Latch ThreadSide
  owner : LaunchPc
  created : CreatedPc
  /-- What ended the run. -/
  fault : Option Fault

inductive ThreadEvent where
  | start
  /-- `pthread_create` has succeeded or not. -/
  | create (ok : Bool)
  /-- An operation of the latch's mutex or condition. -/
  | latch (e : Monitor.Event ThreadSide LatchCall (Option Int))
  | check
  | join
  /-- `pthread_join` returns. -/
  | joined
  | destroy
  | store (tid : Nat)
  /-- `func_()` returns. -/
  | finish

/-- The steps that `start()` is made of, once it has been called. -/
def ThreadEvent.inStart : ThreadEvent → Bool
  | .create _ | .latch _ | .check | .store _ => true
  | .start | .join | .joined | .destroy | .finish => false

/-- Inside `start()`. -/
def LaunchPc.within : LaunchPc → Bool
  | .creating | .opening | .waiting | .checking => true
  | .outside | .joining | .gone => false

/-- `tid_` has been written. -/
def CreatedPc.stored : CreatedPc → Bool
  | .absent | .storing => false
  | .counting | .inLatch | .running | .finished => true

/-- `count_down()` has returned. -/
def CreatedPc.counted : CreatedPc → Bool
  | .absent | .storing | .counting | .inLatch => false
  | .running | .finished => true

theorem CreatedPc.running_of_counted {pc : CreatedPc} (h : pc.counted = true) (hnot : pc ≠ .finished) :
    pc = .running := by
  cases pc with
  | absent | storing | counting | inLatch => cases h
  | running => rfl
  | finished => exact absurd rfl hnot

/-- The steps of `start()` before the owner; a call on the latch has fourteen. -/
def LaunchPc.ahead : LaunchPc → Nat
  | .creating => 33
  | .opening => 16
  | .waiting | .checking => 1
  | .outside | .joining | .gone => 0

def CreatedPc.ahead : CreatedPc → Nat
  | .storing => 16
  | .counting => 15
  | .absent | .inLatch | .running | .finished => 0

theorem CreatedPc.stored_of_counted {pc : CreatedPc} (h : pc.counted = true) : pc.stored = true := by
  cases pc with
  | absent | storing | counting | inLatch => cases h
  | running | finished => rfl

namespace Thread

/-- Before `start()`. -/
def new : Thread where
  started := false
  joined := false
  tid := 0
  latch := .start 1
  owner := .outside
  created := .absent
  fault := none

/-- Who calls what on the latch. -/
def may (side : ThreadSide) (c : LatchCall) : Prop :=
  c = match side with
    | .owner => .wait
    | .created => .countDown

def assert (w : Thread) (b : Bool) (text : String) (w' : Thread) : Thread :=
  if b then w' else { w with fault := some (.assertion text) }

/-- The new thread writes through one of its pointers into the object. -/
def touch (w w' : Thread) : Thread :=
  if w.owner = .gone then { w with fault := some .dangling } else w'

/-- What an operation of the latch is in the code of the two threads. -/
def follow (w : Thread) : Monitor.Event ThreadSide LatchCall (Option Int) → Option Thread
  | .call .owner .wait => if w.owner = .opening then some { w with owner := .waiting } else none
  | .inner .owner | .wake .owner => if w.owner = .waiting then some w else none
  | .return .owner _ _ => if w.owner = .waiting then some { w with owner := .checking } else none
  | .call .created .countDown =>
    if w.created = .counting then some { w with created := .inLatch } else none
  | .inner .created | .wake .created => if w.created = .inLatch then some w else none
  | .return .created _ _ =>
    if w.created = .inLatch then some { w with created := .running } else none
  | .call _ _ => none

inductive Step (w : Thread) : ThreadEvent → Thread → Prop where
  | start (hfault : w.fault = none) (howner : w.owner = .outside) :
      Step w .start (w.assert (!w.started) "!started_" { w with started := true, owner := .creating })
  | create (hfault : w.fault = none) (howner : w.owner = .creating) :
      Step w (.create true) { w with created := .storing, owner := .opening }
  | notCreate (hfault : w.fault = none) (howner : w.owner = .creating) :
      Step w (.create false) { w with started := false, owner := .outside }
  | latchOwner {e : Monitor.Event ThreadSide LatchCall (Option Int)} {m : Latch ThreadSide}
      {w' : Thread} (hfault : w.fault = none) (hside : e.thread = .owner)
      (hfollow : w.follow e = some w') (hlatch : Monitor.Step proc may w.latch e m) :
      Step w (.latch e) { w' with latch := m }
  | latchCreated {e : Monitor.Event ThreadSide LatchCall (Option Int)} {m : Latch ThreadSide}
      {w' : Thread} (hfault : w.fault = none) (hside : e.thread = .created)
      (hfollow : w.follow e = some w') (hlatch : Monitor.Step proc may w.latch e m) :
      Step w (.latch e) (w.touch { w' with latch := m })
  | check (hfault : w.fault = none) (howner : w.owner = .checking) :
      Step w .check (w.assert (0 < w.tid) "tid_ > 0" { w with owner := .outside })
  | join (hfault : w.fault = none) (howner : w.owner = .outside) :
      Step w .join (w.assert w.started "started_"
        (w.assert (!w.joined) "!joined_" { w with joined := true, owner := .joining }))
  | joined (hfault : w.fault = none) (howner : w.owner = .joining)
      (hended : w.created = .finished) : Step w .joined { w with owner := .outside }
  /-- The destructor, with that of the latch's mutex. -/
  | destroy (hfault : w.fault = none) (howner : w.owner = .outside) :
      Step w .destroy (w.assert (w.latch.holder = none) "holder_ == 0" { w with owner := .gone })
  /-- The kernel's thread ids are positive. -/
  | store {tid : Nat} (hfault : w.fault = none) (hcreated : w.created = .storing) (htid : 0 < tid) :
      Step w (.store tid) (w.touch { w with tid := tid, created := .counting })
  | finish (hfault : w.fault = none) (hcreated : w.created = .running) :
      Step w .finish { w with created := .finished }

def system : Transition.System Thread ThreadEvent where
  init w := w = new
  step := Step

/-- The owner starts a thread once, and joins a started one once. -/
def Respects (w : Thread) : ThreadEvent → Prop
  | .start => w.started = false
  | .join => w.started = true ∧ w.joined = false
  | .create _ | .latch _ | .check | .joined | .destroy | .store _ | .finish => True

theorem respects_of_inStart {s : ThreadEvent} (h : s.inStart = true) (w : Thread) : w.Respects s := by
  cases s with
  | start | join | joined | destroy | finish => cases h
  | create _ | latch _ | check | store _ => trivial

variable {w w' : Thread} {m : Latch ThreadSide}
  {e : Monitor.Event ThreadSide LatchCall (Option Int)}

/-- The latch has opened for the owner: `start()` is past its wait. -/
def Passed (w : Thread) : Prop :=
  w.owner = .checking ∨ w.owner.within = false ∧ w.started = true ∨
    (w.latch.phase .owner).result ≠ none

structure Inv (w : Thread) : Prop where
  fault : w.fault = none
  latch : ∃ tr, Sound proc may 1 tr w.latch ∧ (returns .created tr ≠ [] ↔ w.created.counted = true)
  alert : Alert proc may w.latch.data w.latch.phase
  ownerCall : (w.latch.phase .owner).call = if w.owner = .waiting then some .wait else none
  createdCall : (w.latch.phase .created).call =
    if w.created = .inLatch then some .countDown else none
  within : w.owner.within = true → w.started = true
  absent : w.created = .absent ↔ w.started = false ∨ w.owner = .creating
  tid : w.created.stored = true → 0 < w.tid
  /-- Whoever is past the latch has seen the new thread leave it. -/
  passed : w.Passed → w.created.counted = true

theorem new_inv : Inv new where
  fault := rfl
  latch := ⟨[], start_sound proc may 1, fun h => absurd rfl h, fun h => absurd h (by decide)⟩
  alert := alert_outside proc may 1
  ownerCall := rfl
  createdCall := rfl
  within h := absurd h (by decide)
  absent := ⟨fun _ => Or.inl rfl, fun _ => rfl⟩
  tid h := absurd h (by decide)
  passed h := by
    rcases h with h | ⟨_, h⟩ | h
    · cases h
    · cases h
    · exact absurd rfl h

/-- A body of `count_down()` in the log is the new thread's. -/
theorem countDowns_pos {tr : List (Monitor.Event ThreadSide LatchCall (Option Int))}
    (h : Sound proc may 1 tr m) (hpos : 0 < countDowns m.log) : results .created m.log ≠ [] := by
  obtain ⟨x, hx, hcall⟩ := List.countP_pos_iff.mp hpos
  have hwho := h.permitted.log x hx
  rw [of_decide_eq_true hcall] at hwho
  have hside : x.thread = .created := by
    cases hthread : x.thread with
    | created => rfl
    | owner =>
      rw [hthread] at hwho
      cases hwho
  exact List.ne_nil_of_mem (List.mem_filterMap.mpr ⟨x, hx, if_pos hside⟩)

/-- **The handshake.** When the owner finds the latch open, the new thread has left it. -/
theorem Inv.counted_of_open (h : Inv w) {c : LatchCall} (hphase : w.latch.phase .owner = .testing c)
    (hopen : (proc c).guard w.latch.data = true) : w.created.counted = true := by
  obtain ⟨tr, hsound, hreturned⟩ := h.latch
  have hwait : c = .wait := hsound.permitted.phase .owner c (by rw [hphase]; rfl)
  subst hwait
  have hle : w.latch.data ≤ 0 := by simpa [proc, CountDownLatch.wait] using hopen
  have hcount := count_eq hsound.serial
  have hresults := countDowns_pos hsound (by omega)
  rw [hsound.accounted .created] at hresults
  by_cases hnil : returns .created tr = []
  · -- it cannot be on its way out: the owner has the mutex
    have howns : (w.latch.phase .created).Owns := by
      rw [hnil, List.nil_append] at hresults
      cases hp : w.latch.phase .created with
      | notifying _ _ | leaving _ _ | unlocking _ _ => trivial
      | outside | entering _ | locked _ | testing _ | yielding _ | asleep _ =>
        rw [hp] at hresults
        exact absurd rfl hresults
    have hsame := hsound.exclusive.owner.eq howns (by rw [hphase]; trivial : (w.latch.phase .owner).Owns)
    cases hsame
  · exact hreturned.mp hnil

/-- Before the new thread has left the latch, the object is there and `start()` waits. -/
theorem Inv.not_passed (h : Inv w) (hcreated : w.created.counted = false) : ¬w.Passed := by
  intro hpassed
  rw [h.passed hpassed] at hcreated
  cases hcreated

/-- Until the new thread has left the latch, the owner is inside `start()`. -/
theorem Inv.within_of (h : Inv w) (hcreated : w.created.counted = false) (hhere : w.created ≠ .absent) :
    w.owner.within = true := by
  by_contra hout
  refine h.not_passed hcreated (Or.inr (Or.inl ⟨Bool.not_eq_true _ ▸ hout, ?_⟩))
  by_contra hstarted
  exact hhere (h.absent.mpr (Or.inl (Bool.not_eq_true _ ▸ hstarted)))

theorem Inv.touch_eq (h : Inv w) (hcreated : w.created.counted = false)
    (habsent : w.created ≠ .absent) (w' : Thread) : w.touch w' = w' := by
  refine if_neg fun hgone => ?_
  have hwithin := h.within_of hcreated habsent
  rw [hgone] at hwithin
  cases hwithin

/-- The owner passes the latch by a body of its own only. -/
theorem Inv.counted_of_result (h : Inv w) (hlatch : Monitor.Step proc may w.latch e m)
    (hresult : (m.phase .owner).result ≠ none) : w.created.counted = true := by
  rcases hlatch.result .owner with hsame | hout | ⟨c, hphase, hopen⟩
  · rw [hsame] at hresult
    exact h.passed (Or.inr (Or.inr hresult))
  · rw [hout] at hresult
    exact absurd rfl hresult
  · exact h.counted_of_open hphase hopen

/-- Away from `pthread_create` the place of the owner does not matter. -/
theorem Inv.absent_iff (h : Inv w) (pc : LaunchPc) (howner : w.owner ≠ .creating)
    (hpc : pc ≠ .creating) : w.created = .absent ↔ w.started = false ∨ pc = .creating := by
  rw [h.absent, or_iff_left howner, or_iff_left hpc]

theorem Inv.latchOwner (h : Inv w) (hside : e.thread = .owner) (hfollow : w.follow e = some w')
    (hlatch : Monitor.Step proc may w.latch e m) : Inv { w' with latch := m } := by
  obtain ⟨tr, hsound, hreturned⟩ := h.latch
  have hother : e.thread ≠ .created := by
    rw [hside]
    decide
  have hcreated : (m.phase .created).call = if w.created = .inLatch then some .countDown else none :=
    (hlatch.call_other hother).trans h.createdCall
  have hsound' : ∃ tr, Sound proc may 1 tr m ∧ (returns .created tr ≠ [] ↔ w.created.counted = true) :=
    ⟨tr ++ [e], hsound.step hlatch, by rw [returns_other hother]; exact hreturned⟩
  have halert := h.alert.step hsound.exclusive hsound.permitted (announces may) hlatch
  -- still in the wait
  have hwithin : w.owner = .waiting →
      (m.phase .owner).call = (w.latch.phase .owner).call → Inv { w with latch := m } := by
    intro howner hcall
    refine ⟨h.fault, hsound', halert, hcall.trans h.ownerCall, hcreated, h.within, h.absent, h.tid,
      fun hpassed => ?_⟩
    rcases hpassed with hpc | ⟨hpc, _⟩ | hresult
    · exact h.passed (Or.inl hpc)
    · have hin : w.owner.within = false := hpc
      rw [howner] at hin
      cases hin
    · exact h.counted_of_result hlatch hresult
  cases e with
  | call t c =>
    obtain rfl : t = .owner := hside
    cases c with
    | countDown | getCount => cases hfollow
    | wait =>
      rw [follow] at hfollow
      split at hfollow
      · rename_i howner
        cases hfollow
        obtain ⟨_, hphase⟩ := hlatch.of_call
        refine ⟨h.fault, hsound', halert, by rw [hphase]; rfl, hcreated, fun _ => ?_,
          h.absent_iff .waiting (by rw [howner]; decide) (by decide), h.tid, fun hpassed => ?_⟩
        · exact h.within (by rw [howner]; rfl)
        · rcases hpassed with hpc | ⟨hpc, _⟩ | hresult
          · cases hpc
          · cases hpc
          · exact h.counted_of_result hlatch hresult
      · cases hfollow
  | inner t | wake t =>
    obtain rfl : t = .owner := hside
    rw [follow] at hfollow
    split at hfollow
    · rename_i howner
      cases hfollow
      exact hwithin howner (congrFun hlatch.calls .owner)
    · cases hfollow
  | «return» t c r =>
    obtain rfl : t = .owner := hside
    rw [follow] at hfollow
    split at hfollow
    · rename_i howner
      cases hfollow
      obtain ⟨hbefore, hphase⟩ := hlatch.of_return
      refine ⟨h.fault, hsound', halert, by rw [hphase]; rfl, hcreated, fun _ => ?_,
        h.absent_iff .checking (by rw [howner]; decide) (by decide), h.tid, fun _ => ?_⟩
      · exact h.within (by rw [howner]; rfl)
      · refine h.passed (Or.inr (Or.inr ?_))
        rw [hbefore]
        exact Option.some_ne_none _
    · cases hfollow

/-- The new thread moves from before the latch to `pc`. -/
theorem Inv.latchCreated_move (h : Inv w) (hlatch : Monitor.Step proc may w.latch e m)
    (hside : e.thread = .created) (hcounted : w.created.counted = false)
    (hstored : w.created.stored = true) (pc : CreatedPc) (hpc : pc.stored = true)
    (hcall : (m.phase .created).call = if pc = .inLatch then some .countDown else none)
    (hreturned : returns .created [e] ≠ [] ↔ pc.counted = true) :
    Inv { w with created := pc, latch := m } := by
  obtain ⟨tr, hsound, hreturns⟩ := h.latch
  have hnil : returns .created tr = [] := by
    by_contra hne
    rw [hreturns.mp hne] at hcounted
    cases hcounted
  have hreturns' : returns .created (tr ++ [e]) ≠ [] ↔ pc.counted = true := by
    rw [returns_append, hnil, List.nil_append, hreturned]
  have hother : e.thread ≠ .owner := by
    rw [hside]
    decide
  have hhere : w.created ≠ .absent := by
    intro habsent
    rw [habsent] at hstored
    cases hstored
  refine ⟨h.fault, ⟨tr ++ [e], hsound.step hlatch, hreturns'⟩,
    h.alert.step hsound.exclusive hsound.permitted (announces may) hlatch,
    (hlatch.call_other hother).trans h.ownerCall, hcall, h.within, ?_, fun _ => h.tid hstored,
    fun hpassed => ?_⟩
  · refine ⟨fun habsent => ?_, fun hno => absurd (h.absent.mpr hno) hhere⟩
    have hnone : pc = .absent := habsent
    rw [hnone] at hpc
    cases hpc
  · -- the owner has not passed the latch yet
    have hno := h.not_passed hcounted
    rcases hpassed with hpc | hpc | hresult
    · exact absurd (Or.inl hpc) hno
    · exact absurd (Or.inr (Or.inl hpc)) hno
    · rw [h.counted_of_result hlatch hresult] at hcounted
      cases hcounted

/-- What the owner does on the latch it does inside `start()`. -/
theorem follow_owner (hside : e.thread = .owner) (hfollow : w.follow e = some w') :
    w.owner.within = true ∧ w'.owner.within = true ∧ w'.joined = w.joined ∧ w'.created = w.created := by
  cases e with
  | call t c =>
    obtain rfl : t = .owner := hside
    cases c with
    | countDown | getCount => cases hfollow
    | wait =>
      rw [follow] at hfollow
      split at hfollow
      · rename_i howner
        cases hfollow
        exact ⟨by rw [howner]; rfl, rfl, rfl, rfl⟩
      · cases hfollow
  | inner t | wake t | «return» t c r =>
    obtain rfl : t = .owner := hside
    rw [follow] at hfollow
    split at hfollow
    · rename_i howner
      cases hfollow
      exact ⟨by rw [howner]; rfl, by first | rfl | (rw [howner]; rfl), rfl, rfl⟩
    · cases hfollow

/-- The new thread is on the latch. -/
theorem follow_created (hside : e.thread = .created) (hfollow : w.follow e = some w') :
    (w.created = .counting ∨ w.created = .inLatch) ∧ w'.owner = w.owner ∧ w'.joined = w.joined ∧
      w'.created ≠ .finished := by
  cases e with
  | call t c =>
    obtain rfl : t = .created := hside
    cases c with
    | wait | getCount => cases hfollow
    | countDown =>
      rw [follow] at hfollow
      split at hfollow
      · rename_i hcreated
        cases hfollow
        exact ⟨Or.inl hcreated, rfl, rfl, fun hpc => by cases hpc⟩
      · cases hfollow
  | inner t | wake t | «return» t c r =>
    obtain rfl : t = .created := hside
    rw [follow] at hfollow
    split at hfollow
    · rename_i hcreated
      cases hfollow
      exact ⟨Or.inr hcreated, rfl, rfl, fun hpc => by first | cases hpc | (rw [hcreated] at hpc; cases hpc)⟩
    · cases hfollow

/-- The new thread is on the latch: the object is still there. -/
theorem Inv.touch_follow (h : Inv w) (hside : e.thread = .created) (hfollow : w.follow e = some w')
    (w'' : Thread) : w.touch w'' = w'' := by
  obtain ⟨hpc, _⟩ := follow_created hside hfollow
  refine h.touch_eq ?_ (fun habsent => ?_) _
  · rcases hpc with hpc | hpc <;> rw [hpc] <;> rfl
  · rcases hpc with hpc | hpc <;> rw [hpc] at habsent <;> cases habsent

theorem Inv.latchCreated (h : Inv w) (hside : e.thread = .created) (hfollow : w.follow e = some w')
    (hlatch : Monitor.Step proc may w.latch e m) : Inv (w.touch { w' with latch := m }) := by
  rw [h.touch_follow hside hfollow]
  cases e with
  | call t c =>
    obtain rfl : t = .created := hside
    cases c with
    | wait | getCount => cases hfollow
    | countDown =>
      rw [follow] at hfollow
      split at hfollow
      · rename_i hcreated
        cases hfollow
        obtain ⟨_, hphase⟩ := hlatch.of_call
        exact h.latchCreated_move hlatch rfl (by rw [hcreated]; rfl) (by rw [hcreated]; rfl) .inLatch
          rfl (by rw [hphase]; rfl) ⟨fun hne => absurd rfl hne, fun hc => by cases hc⟩
      · cases hfollow
  | inner t | wake t =>
    obtain rfl : t = .created := hside
    rw [follow] at hfollow
    split at hfollow
    · rename_i hcreated
      cases hfollow
      have hcall := h.createdCall
      rw [hcreated] at hcall
      have hsame : (m.phase .created).call = (w.latch.phase .created).call :=
        congrFun hlatch.calls .created
      have hmove := h.latchCreated_move hlatch rfl (by rw [hcreated]; rfl) (by rw [hcreated]; rfl)
        .inLatch rfl (hsame.trans hcall) ⟨fun hne => absurd rfl hne, fun hc => by cases hc⟩
      rw [← hcreated] at hmove
      exact hmove
    · cases hfollow
  | «return» t c r =>
    obtain rfl : t = .created := hside
    rw [follow] at hfollow
    split at hfollow
    · rename_i hcreated
      cases hfollow
      obtain ⟨_, hphase⟩ := hlatch.of_return
      exact h.latchCreated_move hlatch rfl (by rw [hcreated]; rfl) (by rw [hcreated]; rfl) .running
        rfl (by rw [hphase]; rfl) ⟨fun _ => rfl, fun _ => List.cons_ne_nil _ _⟩
    · cases hfollow

theorem assert_true {b : Bool} (hb : b = true) (text : String) (w' : Thread) :
    w.assert b text w' = w' := if_pos hb

/-- The owner goes from one place to another where the latch has let it pass, or is not
    in sight yet. -/
theorem Inv.ownerMove (h : Inv w) (pc : LaunchPc) (joined : Bool) (hold : w.owner ≠ .waiting)
    (hnew : pc ≠ .waiting) (hstart : w.owner ≠ .creating) (hcreating : pc ≠ .creating)
    (hwithin : pc.within = true → w.started = true)
    (hpassed : pc = .checking ∨ pc.within = false ∧ w.started = true → w.Passed) :
    Inv { w with owner := pc, joined := joined } where
  fault := h.fault
  latch := h.latch
  alert := h.alert
  ownerCall := by
    rw [h.ownerCall, if_neg hold]
    exact (if_neg hnew).symm
  createdCall := h.createdCall
  within := hwithin
  absent := h.absent_iff pc hstart hcreating
  tid := h.tid
  passed hp := by
    rcases hp with hp | hp | hp
    · exact h.passed (hpassed (Or.inl hp))
    · exact h.passed (hpassed (Or.inr hp))
    · exact h.passed (Or.inr (Or.inr hp))

/-- Outside a call on the latch there is no result. -/
theorem Inv.result_none (h : Inv w) (howner : w.owner ≠ .waiting) :
    (w.latch.phase .owner).result = none := by
  have hcall := h.ownerCall
  rw [if_neg howner] at hcall
  rw [Phase.eq_outside hcall]
  rfl

theorem Inv.start (h : Inv w) (howner : w.owner = .outside) (hfresh : w.started = false) :
    Inv { w with started := true, owner := .creating } := by
  have hnone : w.created = .absent := h.absent.mpr (Or.inl hfresh)
  refine ⟨h.fault, h.latch, h.alert, ?_, h.createdCall, fun _ => rfl, ?_, h.tid, fun hpassed => ?_⟩
  · rw [h.ownerCall, howner]
    rfl
  · exact ⟨fun _ => Or.inr rfl, fun _ => hnone⟩
  · rcases hpassed with hpc | ⟨hpc, _⟩ | hresult
    · cases hpc
    · cases hpc
    · exact absurd (h.result_none (by rw [howner]; decide)) hresult

theorem Inv.create (h : Inv w) (howner : w.owner = .creating) :
    Inv { w with created := .storing, owner := .opening } := by
  have hstarted : w.started = true := h.within (by rw [howner]; rfl)
  have hnone : w.created = .absent := h.absent.mpr (Or.inr howner)
  obtain ⟨tr, hsound, hreturned⟩ := h.latch
  rw [hnone] at hreturned
  refine ⟨h.fault, ⟨tr, hsound, hreturned⟩, h.alert, ?_, ?_, fun _ => hstarted, ?_,
    fun hstored => ?_, fun hpassed => ?_⟩
  · rw [h.ownerCall, howner]
    rfl
  · rw [h.createdCall, hnone]
    rfl
  · refine ⟨fun heq => ?_, fun hno => ?_⟩
    · cases heq
    · rcases hno with hno | hno
      · rw [show w.started = false from hno] at hstarted
        cases hstarted
      · cases hno
  · cases hstored
  · rcases hpassed with hpc | ⟨hpc, _⟩ | hresult
    · cases hpc
    · cases hpc
    · exact absurd (h.result_none (by rw [howner]; decide)) hresult

/-- `pthread_create` has failed: all is as before. -/
theorem Inv.notCreate (h : Inv w) (howner : w.owner = .creating) :
    Inv { w with started := false, owner := .outside } := by
  have hnone : w.created = .absent := h.absent.mpr (Or.inr howner)
  refine ⟨h.fault, h.latch, h.alert, ?_, h.createdCall, fun hin => ?_, ?_, h.tid, fun hpassed => ?_⟩
  · rw [h.ownerCall, howner]
    rfl
  · cases hin
  · exact ⟨fun _ => Or.inl rfl, fun _ => hnone⟩
  · rcases hpassed with hpc | ⟨_, hpc⟩ | hresult
    · cases hpc
    · cases hpc
    · exact absurd (h.result_none (by rw [howner]; decide)) hresult

theorem Inv.store (h : Inv w) (hcreated : w.created = .storing) {tid : Nat} (htid : 0 < tid) :
    Inv (w.touch { w with tid := tid, created := .counting }) := by
  have hcounted : w.created.counted = false := by
    rw [hcreated]
    rfl
  have hhere : w.created ≠ .absent := by
    rw [hcreated]
    decide
  rw [h.touch_eq hcounted hhere]
  obtain ⟨tr, hsound, hreturned⟩ := h.latch
  rw [hcreated] at hreturned
  refine ⟨h.fault, ⟨tr, hsound, hreturned⟩, h.alert, h.ownerCall, ?_, h.within, ?_,
    fun _ => htid, fun hpassed => absurd hpassed (h.not_passed hcounted)⟩
  · rw [h.createdCall, hcreated]
    rfl
  · refine ⟨fun heq => ?_, fun hno => absurd (h.absent.mpr hno) hhere⟩
    cases heq

theorem Inv.finish (h : Inv w) (hcreated : w.created = .running) :
    Inv { w with created := .finished } := by
  obtain ⟨tr, hsound, hreturned⟩ := h.latch
  rw [hcreated] at hreturned
  refine ⟨h.fault, ⟨tr, hsound, hreturned⟩, h.alert, h.ownerCall, ?_, h.within, ?_,
    fun _ => h.tid (by rw [hcreated]; rfl), fun _ => rfl⟩
  · rw [h.createdCall, hcreated]
    rfl
  · refine ⟨fun heq => ?_, fun hno => ?_⟩
    · cases heq
    · have habsent := h.absent.mpr hno
      rw [hcreated] at habsent
      cases habsent

/-- Nobody is in the latch any more. -/
theorem Inv.holder_none (h : Inv w) (howner : w.owner = .outside) : w.latch.holder = none := by
  obtain ⟨_, hsound, _⟩ := h.latch
  cases hholder : w.latch.holder with
  | none => rfl
  | some t =>
    have hinside := (hsound.exclusive.holder t).mp hholder
    have hcall : (w.latch.phase t).call = none := by
      cases t with
      | owner =>
        rw [h.ownerCall, howner]
        rfl
      | created =>
        rw [h.createdCall]
        refine if_neg fun hin => ?_
        -- the new thread is past the latch, or there is none
        have hstarted : w.started = true := by
          by_contra hno
          have habsent := h.absent.mpr (Or.inl (Bool.not_eq_true _ ▸ hno))
          rw [hin] at habsent
          cases habsent
        have hcounted := h.passed (Or.inr (Or.inl ⟨by rw [howner]; rfl, hstarted⟩))
        rw [hin] at hcounted
        cases hcounted
    rw [Phase.eq_outside hcall] at hinside
    exact absurd hinside id

theorem Inv.step (h : Inv w) {s : ThreadEvent} (hstep : (system.restrict Respects).step w s w') :
    Inv w' := by
  obtain ⟨hrespects, hstep⟩ := hstep
  cases hstep with
  | start _ howner =>
    have hfresh : w.started = false := hrespects
    rw [assert_true (by rw [hfresh]; rfl)]
    exact h.start howner hfresh
  | create _ howner => exact h.create howner
  | notCreate _ howner => exact h.notCreate howner
  | latchOwner _ hside hfollow hlatch => exact h.latchOwner hside hfollow hlatch
  | latchCreated _ hside hfollow hlatch => exact h.latchCreated hside hfollow hlatch
  | check _ howner =>
    have hpassed : w.Passed := Or.inl howner
    rw [assert_true (decide_eq_true (h.tid (CreatedPc.stored_of_counted (h.passed hpassed))))]
    exact h.ownerMove .outside w.joined (by rw [howner]; decide) (by decide) (by rw [howner]; decide)
      (by decide) (fun hin => by cases hin) fun _ => hpassed
  | join _ howner =>
    obtain ⟨hstarted, hjoined⟩ := hrespects
    rw [assert_true hstarted, assert_true (by rw [hjoined]; rfl)]
    exact h.ownerMove .joining true (by rw [howner]; decide) (by decide) (by rw [howner]; decide)
      (by decide) (fun hin => by cases hin) fun _ => Or.inr (Or.inl ⟨by rw [howner]; rfl, hstarted⟩)
  | joined _ howner hended =>
    refine h.ownerMove .outside w.joined (by rw [howner]; decide) (by decide)
      (by rw [howner]; decide) (by decide) (fun hin => by cases hin) fun hp => ?_
    rcases hp with hp | ⟨_, hstarted⟩
    · cases hp
    · exact Or.inr (Or.inl ⟨by rw [howner]; rfl, hstarted⟩)
  | destroy _ howner =>
    rw [assert_true (decide_eq_true (h.holder_none howner))]
    refine h.ownerMove .gone w.joined (by rw [howner]; decide) (by decide)
      (by rw [howner]; decide) (by decide) (fun hin => by cases hin) fun hp => ?_
    rcases hp with hp | ⟨_, hstarted⟩
    · cases hp
    · exact Or.inr (Or.inl ⟨by rw [howner]; rfl, hstarted⟩)
  | store _ hcreated htid => exact h.store hcreated htid
  | finish _ hcreated => exact h.finish hcreated

/-- **The steps of `start()`** happen inside it, and none of them ends the new thread or takes
    it back. -/
theorem Inv.inStart (h : Inv w) {s : ThreadEvent} (hin : s.inStart = true) (hstep : Step w s w') :
    w.owner.within = true ∧ (w'.owner.within = true ∨ w'.owner = .outside) ∧ w'.joined = w.joined ∧
      (w'.created = w.created ∨ w.created.counted = false ∧ w'.created ≠ .finished) := by
  cases hstep with
  | start _ _ | join _ _ | joined _ _ _ | destroy _ _ | finish _ _ => cases hin
  | create _ howner =>
    have hnone : w.created = .absent := h.absent.mpr (Or.inr howner)
    refine ⟨by rw [howner]; rfl, Or.inl rfl, rfl, Or.inr ⟨by rw [hnone]; rfl, fun hpc => ?_⟩⟩
    cases hpc
  | notCreate _ howner => exact ⟨by rw [howner]; rfl, Or.inr rfl, rfl, Or.inl rfl⟩
  | latchOwner _ hside hfollow _ =>
    obtain ⟨hbefore, hafter, hjoined, hcreated⟩ := follow_owner hside hfollow
    exact ⟨hbefore, Or.inl hafter, hjoined, Or.inl hcreated⟩
  | latchCreated _ hside hfollow _ =>
    rw [h.touch_follow hside hfollow]
    obtain ⟨hpc, howner, hjoined, hcreated⟩ := follow_created hside hfollow
    have hcounted : w.created.counted = false := by
      rcases hpc with hpc | hpc <;> rw [hpc] <;> rfl
    have hwithin : w.owner.within = true := by
      refine h.within_of hcounted fun habsent => ?_
      rcases hpc with hpc | hpc <;> rw [hpc] at habsent <;> cases habsent
    exact ⟨hwithin, Or.inl (howner ▸ hwithin), hjoined, Or.inr ⟨hcounted, hcreated⟩⟩
  | check _ howner =>
    have hcounted := h.passed (Or.inl howner)
    rw [assert_true (decide_eq_true (h.tid (CreatedPc.stored_of_counted hcounted)))]
    exact ⟨by rw [howner]; rfl, Or.inr rfl, rfl, Or.inl rfl⟩
  | store _ hcreated _ =>
    have hcounted : w.created.counted = false := by
      rw [hcreated]
      rfl
    have hhere : w.created ≠ .absent := by
      rw [hcreated]
      decide
    have hwithin := h.within_of hcounted hhere
    rw [h.touch_eq hcounted hhere]
    exact ⟨hwithin, Or.inl hwithin, rfl, Or.inr ⟨hcounted, fun hpc => by cases hpc⟩⟩

theorem reachable_inv (h : (system.restrict Respects).Reachable w) : Inv w := by
  refine h.invariant ?_ fun _ _ _ hw hs => hw.step hs
  rintro _ rfl
  exact new_inv

-- ════════════════════════════════════════════════════════════════════════
-- `start()` comes back
-- ════════════════════════════════════════════════════════════════════════

/-- Steps on the way through `start()`; those of the owner and of `func_()` around it, and
    wakings for no reason, are not. -/
def cost : ThreadEvent → Nat
  | .create _ | .check | .store _ | .latch (.call _ _) | .latch (.inner _)
  | .latch (.return _ _ _) => 1
  | .latch (.wake _) | .start | .join | .joined | .destroy | .finish => 0

theorem inStart_of_cost {s : ThreadEvent} (h : cost s = 1) : s.inStart = true := by
  cases s with
  | create _ | latch _ | check | store _ => rfl
  | start | join | joined | destroy | finish => cases h

def credit : ThreadEvent → Nat
  | .start => 33
  | .latch (.wake _) => 4
  | .create _ | .check | .store _ | .latch (.call _ _) | .latch (.inner _)
  | .latch (.return _ _ _) | .join | .joined | .destroy | .finish => 0

def ahead (w : Thread) : Nat :=
  Monitor.weight w.latch.phase + w.owner.ahead + w.created.ahead

/-- `count_down()` has been run once the new thread has left it. -/
theorem Inv.data_le (h : Inv w) (hcounted : w.created.counted = true) : w.latch.data ≤ 0 := by
  obtain ⟨tr, hsound, hreturned⟩ := h.latch
  obtain ⟨⟨c, r⟩, hmem⟩ := List.exists_mem_of_ne_nil _ (hreturned.mpr hcounted)
  have hlog : ⟨.created, c, r⟩ ∈ w.latch.log := by
    refine mem_results ?_
    rw [hsound.accounted .created]
    exact List.mem_append_left _ hmem
  have hcall : c = .countDown := hsound.permitted.log _ hlog
  have hpos : 0 < countDowns w.latch.log := List.countP_pos_iff.mpr ⟨_, hlog, decide_eq_true hcall⟩
  have hcount := count_eq hsound.serial
  omega

/-- A thread on the latch follows its operations there. -/
theorem Inv.follow (h : Inv w) (hlatch : Monitor.Step proc may w.latch e m)
    (hcall : ∀ t c, e ≠ .call t c) : ∃ w', Step w (.latch e) w' := by
  have hinside := hlatch.inside hcall
  cases hthread : e.thread with
  | owner =>
    rw [hthread, h.ownerCall] at hinside
    have howner : w.owner = .waiting := by
      by_contra hno
      exact hinside (if_neg hno)
    cases e with
    | call t c => exact absurd rfl (hcall t c)
    | inner t | wake t | «return» t c r =>
      obtain rfl : t = .owner := hthread
      exact ⟨_, .latchOwner h.fault rfl (if_pos howner) hlatch⟩
  | created =>
    rw [hthread, h.createdCall] at hinside
    have hcreated : w.created = .inLatch := by
      by_contra hno
      exact hinside (if_neg hno)
    cases e with
    | call t c => exact absurd rfl (hcall t c)
    | inner t | wake t | «return» t c r =>
      obtain rfl : t = .created := hthread
      exact ⟨_, .latchCreated h.fault rfl (if_pos hcreated) hlatch⟩

/-- The owner does not sleep for ever: the new thread opens the latch before it leaves it. -/
theorem Inv.not_quiescent (h : Inv w) (howner : w.owner = .waiting)
    (hcreated : w.created = .inLatch ∨ w.created.counted = true) : ¬Quiescent proc may w.latch := by
  intro hquiet
  obtain ⟨_, hsound, _⟩ := h.latch
  have hwaits := h.ownerCall
  rw [howner] at hwaits
  rcases hquiet.phase hsound.exclusive h.alert .owner with hout | ⟨c, hphase, hclosed⟩
  · rw [hout] at hwaits
    cases hwaits
  · rw [hphase] at hwaits
    cases hwaits
    have hpos : 0 < w.latch.data := by simpa [proc, CountDownLatch.wait] using hclosed
    rcases hquiet.phase hsound.exclusive h.alert .created with hout | ⟨d, hphase', hclosed'⟩
    · rcases hcreated with hin | hcounted
      · have hcall := h.createdCall
        rw [hout, hin] at hcall
        cases hcall
      · have hle := h.data_le hcounted
        omega
    · have hcall : d = .countDown := hsound.permitted.phase .created d (by rw [hphase']; rfl)
      rw [hcall] at hclosed'
      cases hclosed'

/-- Inside `start()` somebody can go on. -/
theorem Inv.within_step (h : Inv w) (hwithin : w.owner.within = true) :
    ∃ s w', Step w s w' ∧ cost s = 1 := by
  have hstarted : w.started = true := h.within hwithin
  cases howner : w.owner with
  | outside | joining | gone =>
    rw [howner] at hwithin
    cases hwithin
  | creating => exact ⟨.create true, _, .create h.fault howner, rfl⟩
  | checking => exact ⟨.check, _, .check h.fault howner, rfl⟩
  | opening =>
    have hout := h.ownerCall
    rw [howner] at hout
    exact ⟨.latch (.call .owner .wait), _, .latchOwner h.fault rfl (if_pos howner)
      (.call (Phase.eq_outside hout) rfl), rfl⟩
  | waiting =>
    have hgo : (w.created = .inLatch ∨ w.created.counted = true) →
        ∃ s w', Step w s w' ∧ cost s = 1 := by
      intro hcreated
      obtain ⟨e, m', hlatch, hcall, hwake⟩ := exists_step_of_not_quiescent (h.not_quiescent howner hcreated)
      obtain ⟨w', hstep⟩ := h.follow hlatch hcall
      refine ⟨_, w', hstep, ?_⟩
      cases e with
      | call t c => exact absurd rfl (hcall t c)
      | wake t => exact absurd rfl (hwake t)
      | inner t | «return» t c r => rfl
    cases hcreated : w.created with
    | absent =>
      rcases h.absent.mp hcreated with hno | hno
      · rw [hstarted] at hno
        cases hno
      · rw [howner] at hno
        cases hno
    | storing => exact ⟨.store 1, _, .store h.fault hcreated Nat.one_pos, rfl⟩
    | counting =>
      have hout := h.createdCall
      rw [hcreated] at hout
      exact ⟨.latch (.call .created .countDown), _, .latchCreated h.fault rfl (if_pos hcreated)
        (.call (Phase.eq_outside hout) rfl), rfl⟩
    | inLatch => exact hgo (Or.inl hcreated)
    | running | finished => exact hgo (Or.inr (by rw [hcreated]; rfl))

/-- An operation of the latch is paid for. -/
theorem follow_ahead (hfollow : w.follow e = some w') (hlatch : Monitor.Step proc may w.latch e m) :
    ahead { w' with latch := m } + cost (.latch e) ≤ ahead w + credit (.latch e) := by
  have hweight := hlatch.weight
  cases e with
  | call t c =>
    have hcall : Monitor.weight m.phase ≤ Monitor.weight w.latch.phase + 14 := hweight
    cases t with
    | owner =>
      cases c with
      | countDown | getCount => cases hfollow
      | wait =>
        rw [follow] at hfollow
        split at hfollow
        · rename_i howner
          cases hfollow
          simp only [ahead, howner, LaunchPc.ahead, cost, credit]
          omega
        · cases hfollow
    | created =>
      cases c with
      | wait | getCount => cases hfollow
      | countDown =>
        rw [follow] at hfollow
        split at hfollow
        · rename_i hcreated
          cases hfollow
          simp only [ahead, hcreated, CreatedPc.ahead, cost, credit]
          omega
        · cases hfollow
  | inner t | wake t =>
    have hw' : w' = w := by
      cases t <;> rw [follow] at hfollow <;> split at hfollow <;> cases hfollow <;> rfl
    subst hw'
    simp only [Event.cost, Event.credit] at hweight
    simp only [ahead, cost, credit]
    omega
  | «return» t c r =>
    have hreturn : Monitor.weight m.phase + 1 ≤ Monitor.weight w.latch.phase := hweight
    cases t with
    | owner =>
      rw [follow] at hfollow
      split at hfollow
      · rename_i howner
        cases hfollow
        simp only [ahead, howner, LaunchPc.ahead, cost, credit]
        omega
      · cases hfollow
    | created =>
      rw [follow] at hfollow
      split at hfollow
      · rename_i hcreated
        cases hfollow
        simp only [ahead, hcreated, CreatedPc.ahead, cost, credit]
        omega
      · cases hfollow

theorem Inv.ahead (h : Inv w) {s : ThreadEvent} (hstep : (system.restrict Respects).step w s w') :
    w'.ahead + cost s ≤ w.ahead + credit s := by
  obtain ⟨hrespects, hstep⟩ := hstep
  cases hstep with
  | start _ howner =>
    have hfresh : w.started = false := hrespects
    rw [assert_true (by rw [hfresh]; rfl)]
    simp only [Thread.ahead, howner, LaunchPc.ahead, cost, credit]
    omega
  | create _ howner =>
    have hnone := h.absent.mpr (Or.inr howner)
    simp only [Thread.ahead, howner, hnone, LaunchPc.ahead, CreatedPc.ahead, cost, credit]
    omega
  | notCreate _ howner =>
    simp only [Thread.ahead, howner, LaunchPc.ahead, cost, credit]
    omega
  | latchOwner _ _ hfollow hlatch => exact follow_ahead hfollow hlatch
  | latchCreated _ hside hfollow hlatch =>
    rw [h.touch_follow hside hfollow]
    exact follow_ahead hfollow hlatch
  | check _ howner =>
    have hcounted := h.passed (Or.inl howner)
    rw [assert_true (decide_eq_true (h.tid (CreatedPc.stored_of_counted hcounted)))]
    simp only [Thread.ahead, howner, LaunchPc.ahead, cost, credit]
    omega
  | join _ howner =>
    obtain ⟨hstarted, hjoined⟩ := hrespects
    rw [assert_true hstarted, assert_true (by rw [hjoined]; rfl)]
    simp only [Thread.ahead, howner, LaunchPc.ahead, cost, credit]
    omega
  | joined _ howner _ =>
    simp only [Thread.ahead, howner, LaunchPc.ahead, cost, credit]
    omega
  | destroy _ howner =>
    rw [assert_true (decide_eq_true (h.holder_none howner))]
    simp only [Thread.ahead, howner, LaunchPc.ahead, cost, credit]
    omega
  | store _ hcreated _ =>
    rw [h.touch_eq (by rw [hcreated]; rfl) (by rw [hcreated]; decide)]
    simp only [Thread.ahead, hcreated, CreatedPc.ahead, cost, credit]
    omega
  | finish _ hcreated =>
    simp only [Thread.ahead, hcreated, CreatedPc.ahead, cost, credit]
    omega

/-- The owner makes an operation of the latch. -/
theorem owner_snoc {tr : List ThreadEvent} (h : (system.restrict Respects).Run new tr w)
    (hlatch : Monitor.Step proc may w.latch e m) (hside : e.thread = .owner)
    (hfollow : w.follow e = some w') (hfault : w.fault = none) :
    (system.restrict Respects).Run new (tr ++ [.latch e]) { w' with latch := m } :=
  h.snoc ⟨trivial, .latchOwner hfault hside hfollow hlatch⟩

theorem created_snoc {tr : List ThreadEvent} (h : (system.restrict Respects).Run new tr w)
    (hlatch : Monitor.Step proc may w.latch e m) (hside : e.thread = .created)
    (hfollow : w.follow e = some w') (hfault : w.fault = none) :
    (system.restrict Respects).Run new (tr ++ [.latch e]) (w.touch { w' with latch := m }) :=
  h.snoc ⟨trivial, .latchCreated hfault hside hfollow hlatch⟩

/-- A thread is started, its owner sleeping on the latch, and the object destroyed while the
    thread runs. -/
theorem sample_run : ∃ tr w, (system.restrict Respects).Run new tr w ∧ w.started = true ∧
    w.owner = .gone ∧ w.created = .running ∧ w.tid = 7 := by
  have hnil : (system.restrict Respects).Run new [] new := .nil
  have hcreated := (hnil.snoc (l := ThreadEvent.start) ⟨rfl, .start rfl rfl⟩).snoc
    (l := ThreadEvent.create true) ⟨trivial, .create rfl rfl⟩
  have hlocked := owner_snoc (owner_snoc (owner_snoc hcreated
    (.call (t := ThreadSide.owner) (c := LatchCall.wait) rfl rfl) rfl rfl rfl)
    (.lock (t := .owner) rfl rfl) rfl rfl rfl) (.assign (t := .owner) rfl) rfl rfl rfl
  have hasleep := owner_snoc (owner_snoc hlocked (.wait (t := .owner) rfl rfl) rfl rfl rfl)
    (.sleep (t := .owner) rfl) rfl rfl rfl
  have hstored := hasleep.snoc (l := ThreadEvent.store 7) ⟨trivial, .store rfl rfl (by decide)⟩
  have hcounting := created_snoc (created_snoc (created_snoc hstored
    (.call (t := ThreadSide.created) (c := LatchCall.countDown) rfl rfl) rfl rfl rfl)
    (.lock (t := .created) rfl rfl) rfl rfl rfl) (.assign (t := .created) rfl) rfl rfl rfl
  have hcounted := created_snoc (created_snoc (created_snoc (created_snoc hcounting
    (.body (t := .created) rfl rfl) rfl rfl rfl) (.notifyAll (t := .created) rfl rfl) rfl rfl rfl)
    (.unassign (t := .created) rfl) rfl rfl rfl) (.unlock (t := .created) rfl) rfl rfl rfl
  have hopen := owner_snoc (owner_snoc (owner_snoc hcounted
    (.lock (t := .owner) rfl rfl) rfl rfl rfl) (.assign (t := .owner) rfl) rfl rfl rfl)
    (.body (t := .owner) rfl rfl) rfl rfl rfl
  have hreturned := owner_snoc (owner_snoc (owner_snoc hopen
    (.notifyNobody (t := .owner) rfl rfl) rfl rfl rfl) (.unassign (t := .owner) rfl) rfl rfl rfl)
    (.unlock (t := .owner) rfl) rfl rfl rfl
  have hgone := (hreturned.snoc (l := ThreadEvent.check) ⟨trivial, .check rfl rfl⟩).snoc
    (l := ThreadEvent.destroy) ⟨trivial, .destroy rfl rfl⟩
  exact ⟨_, _, hgone, rfl, rfl, rfl, rfl⟩

/-- **The object outlives its use.** Whatever the two threads do in whatever order: no
    assertion fails and the new thread never writes to a destroyed object; and once
    `start()` has returned, `tid_` is a thread's and the new thread is done with the
    object, so that its destruction is safe from then on. -/
theorem start_hands_over (h : (system.restrict Respects).Reachable w) :
    w.fault = none ∧ (w.started = true → w.owner.within = false →
      0 < w.tid ∧ w.created.counted = true ∧ w.latch.phase .created = .outside) := by
  have hinv := reachable_inv h
  refine ⟨hinv.fault, fun hstarted hout => ?_⟩
  have hcounted := hinv.passed (Or.inr (Or.inl ⟨hout, hstarted⟩))
  refine ⟨hinv.tid (CreatedPc.stored_of_counted hcounted), hcounted, Phase.eq_outside ?_⟩
  rw [hinv.createdCall]
  refine if_neg fun hin => ?_
  rw [hin] at hcounted
  cases hcounted

theorem start_hands_over_sample : ∃ w : Thread, (system.restrict Respects).Reachable w ∧ w.owner = .gone ∧ w.created = .running ∧
    w.fault = none ∧ w.latch.phase .created = .outside := by
  obtain ⟨_, w, hrun, hstarted, hgone, hrunning, _⟩ := sample_run
  obtain ⟨hfault, hdone⟩ := start_hands_over ⟨new, _, rfl, hrun⟩
  exact ⟨w, ⟨new, _, rfl, hrun⟩, hgone, hrunning, hfault, (hdone hstarted (by rw [hgone]; rfl)).2.2⟩

/-- **`start()` comes back.** In every run the steps on the way through `start()` are
    bounded by the number of its calls and of wakings for no reason; and as long as it has
    not returned, the owner or the new thread has such a step to take. -/
theorem start_returns {tr : List ThreadEvent} (h : (system.restrict Respects).Run new tr w) :
    (tr.map cost).sum ≤ (tr.map credit).sum ∧
      (w.owner.within = true → ∃ s w', (system.restrict Respects).step w s w' ∧ cost s = 1) := by
  have hpaid : w.ahead + (tr.map cost).sum ≤ new.ahead + (tr.map credit).sum :=
    h.cost_le ahead (fun _ _ _ hw hs => hw.step hs) (fun _ _ _ hw hs => hw.ahead hs) new_inv
  have hinv : Inv w := h.invariant (fun _ _ _ hw hs => hw.step hs) new_inv
  have hnew : ahead new = 0 := rfl
  refine ⟨by omega, fun hwithin => ?_⟩
  obtain ⟨s, w', hstep, hcost⟩ := hinv.within_step hwithin
  refine ⟨s, w', ⟨?_, hstep⟩, hcost⟩
  cases s with
  | start | join => cases hcost
  | create _ | latch _ | check | joined | destroy | store _ | finish => trivial

/-- A run to the end, and the next step of one that is in `start()`. -/
theorem start_returns_sample :
    (∃ (tr : List ThreadEvent) (w : Thread), (system.restrict Respects).Run new tr w ∧
      w.owner = .gone ∧ (tr.map cost).sum ≤ (tr.map credit).sum) ∧
    ∃ (tr : List ThreadEvent) (w : Thread), (system.restrict Respects).Run new tr w ∧
      w.owner = .creating ∧ ∃ s w', (system.restrict Respects).step w s w' ∧ cost s = 1 := by
  constructor
  · obtain ⟨tr, w, hrun, _, hgone, _⟩ := sample_run
    exact ⟨tr, w, hrun, hgone, (start_returns hrun).1⟩
  · have hnil : (system.restrict Respects).Run new [] new := .nil
    have hrun := hnil.snoc (l := ThreadEvent.start) ⟨rfl, .start rfl rfl⟩
    exact ⟨_, _, hrun, rfl, (start_returns hrun).2 rfl⟩

end Thread

end DamnWebServer
