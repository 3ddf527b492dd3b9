import DamnWebServer.Net.TimerRuns

/-!
# Timers added and cancelled by other threads

`add_timer` and `cancel` may be called by any thread. In the loop's own thread
`run_in_loop` runs `add_timer_in_loop` or `cancel_in_loop` at once; from another
thread it queues a functor, and the loop's thread runs the functors in order,
outside `handle_read`. A foreign `add_timer` is three steps: it constructs the
`Timer`, it queues the functor, and it reads `timer->sequence()` for the
`Timer_ID` it returns. Any number of such calls may be under way.
-/

namespace DamnWebServer

/-- The functors that the timer queue gives to `queue_in_loop`. -/
inductive TimerFunctor where
  | addTimerInLoop (timer : Nat)
  | cancelInLoop (id : TimerID)
  deriving DecidableEq, Repr

/-- The timer that is still to be inserted. -/
def TimerFunctor.added : TimerFunctor → Option Nat
  | .addTimerInLoop a => some a
  | .cancelInLoop _ => none

/-- The queue with its callers. A foreign call of `add_timer` is known by the
    address and the sequence of the `Timer` it constructed. -/
structure SharedTimers where
  timers : TimerState
  functors : List TimerFunctor
  /-- The calls that have constructed their `Timer`. -/
  creating : List TimerID
  /-- The calls that have queued their functor and will read the sequence. -/
  reading : List TimerID
  /-- The calls that have returned, each with the `Timer_ID` it returned. -/
  returned : List (TimerID × TimerID)

inductive ThreadStep where
  /-- A step of the loop's thread, outside the functors. -/
  | loop (l : TimerStep)
  /-- The loop's thread runs the next functor. -/
  | runFunctor (clock : Timestamp)
  | newTimer (a : Nat) (t : Timer)
  | queueAdd (call : TimerID)
  | readSequence (call : TimerID)
  | queueCancel (id : TimerID)
  deriving DecidableEq

namespace SharedTimers

def new : SharedTimers := ⟨.new, [], [], [], []⟩

/-- The `Timer_ID`s that a caller of `cancel` can have: those that `add_timer`
    returned, and the null ones. -/
def Known (s : SharedTimers) (id : TimerID) : Prop :=
  id ∈ s.returned.map Prod.snd ∨ id.timer = 0

instance (s : SharedTimers) (id : TimerID) : Decidable (s.Known id) :=
  inferInstanceAs (Decidable (_ ∨ _))

/-- The loop's thread cancels what it knows. -/
def Legal (s : SharedTimers) : TimerStep → Prop
  | .cancel id => s.Known id
  | _ => True

instance (s : SharedTimers) (l : TimerStep) : Decidable (s.Legal l) :=
  match l with
  | .cancel id => inferInstanceAs (Decidable (s.Known id))
  | .addTimer _ _ _ | .beginRead _ | .runNext | .endRead _ => inferInstanceAs (Decidable True)

def Enabled (s : SharedTimers) : ThreadStep → Prop
  | .loop l => s.timers.Enabled l ∧ s.Legal l
  | .runFunctor _ => s.timers.batch = none ∧ s.functors ≠ []
  | .newTimer a t =>
    a ≠ 0 ∧ a < uintptrMax ∧ s.timers.queue.heap a = none ∧
      0 ≤ t.sequence ∧ t.sequence < 2 ^ 63 ∧ t.sequence ∉ s.timers.created.map Timer.sequence
  | .queueAdd call => call ∈ s.creating
  | .readSequence call => call ∈ s.reading
  | .queueCancel id => s.Known id

instance (s : SharedTimers) (l : ThreadStep) : Decidable (s.Enabled l) :=
  match l with
  | .loop _ | .runFunctor _ | .newTimer _ _ => inferInstanceAs (Decidable (_ ∧ _))
  | .queueAdd call => inferInstanceAs (Decidable (call ∈ s.creating))
  | .readSequence call => inferInstanceAs (Decidable (call ∈ s.reading))
  | .queueCancel id => inferInstanceAs (Decidable (s.Known id))

/-- An `add_timer` of the loop's thread returns in the step in which it was
    called. -/
def returns : TimerStep → List (TimerID × TimerID)
  | .addTimer a t _ => [(⟨a, t.sequence⟩, ⟨a, t.sequence⟩)]
  | _ => []

def next (s : SharedTimers) : ThreadStep → Except Fault SharedTimers
  | .loop l => do
    let timers ← s.timers.next l
    return { s with timers := timers, returned := s.returned ++ returns l }
  | .runFunctor clock =>
    match s.functors with
    | [] => .ok s
    | .addTimerInLoop a :: rest => do
      let q ← s.timers.queue.addTimerInLoop a clock
      return { s with timers := { s.timers with queue := q }, functors := rest }
    | .cancelInLoop id :: rest => do
      let timers ← s.timers.next (.cancel id)
      return { s with timers := timers, functors := rest }
  | .newTimer a t =>
    .ok { s with
      timers := { s.timers with
        queue := s.timers.queue.store a t
        created := s.timers.created ++ [t] }
      creating := s.creating ++ [⟨a, t.sequence⟩] }
  | .queueAdd call =>
    .ok { s with
      functors := s.functors ++ [.addTimerInLoop call.timer]
      creating := s.creating.erase call
      reading := s.reading ++ [call] }
  | .readSequence call => do
    let t ← s.timers.queue.deref call.timer
    return { s with
      reading := s.reading.erase call
      returned := s.returned ++ [(call, ⟨call.timer, t.sequence⟩)] }
  | .queueCancel id => .ok { s with functors := s.functors ++ [.cancelInLoop id] }

def system : Transition.System SharedTimers ThreadStep where
  init s := s = new
  step s l t := s.Enabled l ∧ s.next l = .ok t

/-- The state after some steps, if they are enabled and return. -/
def after (s : SharedTimers) (tr : List ThreadStep) : Option SharedTimers :=
  Transition.System.follow Enabled (fun s l => (s.next l).toOption) s tr

theorem run_of_after {s t : SharedTimers} {tr : List ThreadStep} (h : s.after tr = some t) :
    system.Run s tr t := by
  refine .of_follow ?_ h
  intro s l t hl hnext
  exact ⟨hl, eq_ok_of_toOption hnext⟩

-- ════════════════════════════════════════════════════════════════════════
-- Timers that are not yet inserted
-- ════════════════════════════════════════════════════════════════════════

/-- The timers whose `add_timer_in_loop` has still to run. -/
def away (s : SharedTimers) : List Nat :=
  s.creating.map TimerID.timer ++ s.functors.filterMap TimerFunctor.added

theorem away_newTimer (functors : List TimerFunctor) (creating : List TimerID) (a : Nat) (n : Int) :
    (a :: (creating.map TimerID.timer ++ functors.filterMap TimerFunctor.added)).Perm
      ((creating ++ [TimerID.mk a n]).map TimerID.timer ++
        functors.filterMap TimerFunctor.added) := by
  rw [List.map_append, List.append_assoc]
  exact List.perm_middle.symm

theorem away_queueAdd (functors : List TimerFunctor) {creating : List TimerID} {call : TimerID}
    (hcall : call ∈ creating) :
    (creating.map TimerID.timer ++ functors.filterMap TimerFunctor.added).Perm
      ((creating.erase call).map TimerID.timer ++
        (functors ++ [TimerFunctor.addTimerInLoop call.timer]).filterMap TimerFunctor.added) := by
  have hcreating := (List.perm_cons_erase hcall).map TimerID.timer
  rw [List.filterMap_append, ← List.append_assoc]
  refine (List.Perm.append_right _ hcreating).trans ?_
  rw [List.map_cons, List.cons_append]
  exact (List.perm_append_singleton _ _).symm

/-- What happens to the timers in a step. -/
inductive Moves (s : SharedTimers) : ThreadStep → SharedTimers → Prop where
  | loop {l : TimerStep} {timers : TimerState} (hl : s.timers.Enabled l) (hlegal : s.Legal l)
      (heff : TimerState.Effect s.timers l timers) :
      Moves s (.loop l) { s with timers := timers, returned := s.returned ++ returns l }
  | insert {a : Nat} {clock : Timestamp} {rest : List TimerFunctor} {q : TimerQueue}
      (hidle : s.timers.batch = none) (hfunctors : s.functors = .addTimerInLoop a :: rest)
      (hheap : q.heap = s.timers.queue.heap)
      (hcancel : q.cancelingTimers = s.timers.queue.cancelingTimers) :
      Moves s (.runFunctor clock)
        { s with timers := { s.timers with queue := q }, functors := rest }
  | cancel {id : TimerID} {clock : Timestamp} {rest : List TimerFunctor} {timers : TimerState}
      (hidle : s.timers.batch = none) (hfunctors : s.functors = .cancelInLoop id :: rest)
      (hnext : s.timers.next (.cancel id) = .ok timers)
      (heff : TimerState.Effect s.timers (.cancel id) timers) :
      Moves s (.runFunctor clock) { s with timers := timers, functors := rest }
  | newTimer {a : Nat} {t : Timer} (hnull : a ≠ 0) (hfree : s.timers.queue.heap a = none)
      (hnew : t.sequence ∉ s.timers.created.map Timer.sequence) :
      Moves s (.newTimer a t) { s with
        timers := { s.timers with
          queue := s.timers.queue.store a t
          created := s.timers.created ++ [t] }
        creating := s.creating ++ [⟨a, t.sequence⟩] }
  | queueAdd {call : TimerID} (hcall : call ∈ s.creating) :
      Moves s (.queueAdd call) { s with
        functors := s.functors ++ [.addTimerInLoop call.timer]
        creating := s.creating.erase call
        reading := s.reading ++ [call] }
  | readSequence {call : TimerID} {t : Timer} (hcall : call ∈ s.reading)
      (hlive : s.timers.queue.heap call.timer = some t) :
      Moves s (.readSequence call) { s with
        reading := s.reading.erase call
        returned := s.returned ++ [(call, ⟨call.timer, t.sequence⟩)] }
  | queueCancel {id : TimerID} (hknown : s.Known id) :
      Moves s (.queueCancel id) { s with functors := s.functors ++ [.cancelInLoop id] }

variable {s t : SharedTimers}

theorem deref_eq_ok {q : TimerQueue} {a : Nat} {t : Timer} (h : q.deref a = .ok t) :
    q.heap a = some t := by
  rw [TimerQueue.deref] at h
  split at h
  · rename_i u hu
    cases h
    exact hu
  · cases h

theorem loop_moves (h : s.timers.Holding s.away) {l : TimerStep}
    (hstep : system.step s (.loop l) t) :
    Moves s (.loop l) t ∧ t.timers.Holding t.away := by
  obtain ⟨⟨hl, hlegal⟩, hnext⟩ := hstep
  obtain ⟨timers, hok, heff, hhold⟩ := h.next_spec hl
  simp only [next, hok, bind, Except.bind] at hnext
  cases hnext
  exact ⟨.loop hl hlegal heff, hhold⟩

theorem runFunctor_moves (h : s.timers.Holding s.away) {clock : Timestamp}
    (hstep : system.step s (.runFunctor clock) t) :
    Moves s (.runFunctor clock) t ∧ t.timers.Holding t.away := by
  obtain ⟨⟨hidle, hne⟩, hnext⟩ := hstep
  have hrep := h.rep
  have hout : s.timers.out = [] := by rw [TimerState.out, hidle]
  obtain ⟨f, rest, hfunctors⟩ := List.exists_cons_of_ne_nil hne
  cases f with
  | addTimerInLoop a =>
    have haway : s.away.Perm (a :: (s.creating.map TimerID.timer ++
        rest.filterMap TimerFunctor.added)) := by
      rw [away, hfunctors]
      exact List.perm_middle
    rw [hout, List.nil_append] at hrep
    have hrep := hrep.perm haway
    obtain ⟨u, hu⟩ := hrep.live a List.mem_cons_self
    obtain ⟨ts, as, hok, hrep'⟩ := TimerQueue.addTimerInLoop_spec hrep hu clock
    simp only [next, hfunctors, hok, bind, Except.bind] at hnext
    cases hnext
    refine ⟨.insert hidle hfunctors rfl rfl, ?_, h.ledger.congr rfl rfl, h.calling⟩
    change TimerQueue.Rep _ (s.timers.out ++ _)
    rw [hout]
    exact hrep'
  | cancelInLoop id =>
    obtain ⟨timers, hok, heff, hhold⟩ := TimerState.cancel_spec h id
    simp only [next, hfunctors, hok, bind, Except.bind] at hnext
    cases hnext
    refine ⟨.cancel hidle hfunctors hok heff, ?_⟩
    have haway : s.away = s.creating.map TimerID.timer ++ rest.filterMap TimerFunctor.added := by
      rw [away, hfunctors]
      rfl
    rw [haway] at hhold
    exact hhold

/-- Every step does what `Moves` says, and the timers that are in no set of the
    queue are those of the batch and those that are still to be inserted. -/
theorem step_moves (h : s.timers.Holding s.away) {l : ThreadStep} (hstep : system.step s l t) :
    Moves s l t ∧ t.timers.Holding t.away := by
  cases l with
  | loop l => exact loop_moves h hstep
  | runFunctor clock => exact runFunctor_moves h hstep
  | newTimer a tm =>
    obtain ⟨⟨hnull, hbound, hfree, _, _, hnew⟩, hnext⟩ := hstep
    cases hnext
    refine ⟨.newTimer hnull hfree hnew, ?_, h.ledger_store hnew, h.calling⟩
    refine (h.rep.store_new (t := tm) hfree hbound).perm ?_
    have hperm : (a :: (s.timers.out ++ s.away)).Perm (s.timers.out ++ a :: s.away) :=
      List.perm_middle.symm
    exact hperm.trans (List.Perm.append_left _ (away_newTimer s.functors s.creating a tm.sequence))
  | queueAdd call =>
    obtain ⟨hcall, hnext⟩ := hstep
    cases hnext
    exact ⟨.queueAdd hcall, h.rep.perm (List.Perm.append_left _ (away_queueAdd s.functors hcall)),
      h.ledger, h.calling⟩
  | readSequence call =>
    obtain ⟨hcall, hnext⟩ := hstep
    obtain ⟨u, hderef, hend⟩ := bind_eq_ok hnext
    cases hend
    exact ⟨.readSequence hcall (deref_eq_ok hderef), h.rep, h.ledger, h.calling⟩
  | queueCancel id =>
    obtain ⟨hknown, hnext⟩ := hstep
    cases hnext
    refine ⟨.queueCancel hknown, ?_⟩
    have haway : away { s with functors := s.functors ++ [.cancelInLoop id] } = s.away := by
      rw [away, away, List.filterMap_append]
      exact congrArg _ (List.append_nil _)
    rw [haway]
    exact h

theorem new_holding : new.timers.Holding new.away := TimerState.new_sound.holding

-- ════════════════════════════════════════════════════════════════════════
-- Foreign calls of `add_timer`
-- ════════════════════════════════════════════════════════════════════════

/-- `reset` will take the timer back into the queue. -/
def goesBack (s : SharedTimers) (a : Nat) : Bool :=
  (s.timers.queue.heap a).any fun t => s.timers.queue.Kept a t

/-- The condition on a step: when `reset` runs, an expired timer whose `add_timer`
    has not returned is one that it does not delete. -/
def Spares (s : SharedTimers) : ThreadStep → Prop
  | .loop (.endRead _) => ∀ call ∈ s.reading, call.timer ∈ s.timers.out → s.goesBack call.timer
  | _ => True

instance (s : SharedTimers) (l : ThreadStep) : Decidable (s.Spares l) :=
  match l with
  | .loop (.endRead _) =>
    inferInstanceAs (Decidable (∀ call ∈ s.reading, call.timer ∈ s.timers.out → _))
  | .loop (.addTimer _ _ _) | .loop (.cancel _) | .loop (.beginRead _) | .loop .runNext
  | .runFunctor _ | .newTimer _ _ | .queueAdd _ | .readSequence _ | .queueCancel _ =>
    inferInstanceAs (Decidable True)

/-- The foreign calls under way. -/
def calls (s : SharedTimers) : List TimerID := s.creating ++ s.reading

/-- The timer that the call constructed is where it was. -/
def Lives (s : SharedTimers) (id : TimerID) : Prop :=
  ∃ t, s.timers.queue.heap id.timer = some t ∧ t.sequence = id.sequence

/-- What holds of the callers while every step spares their timers. -/
structure Served (s : SharedTimers) : Prop where
  holding : s.timers.Holding s.away
  null : s.timers.queue.heap 0 = none
  lives : ∀ call ∈ s.calls, s.Lives call
  distinct : (s.calls.map TimerID.sequence).Nodup
  own : ∀ r ∈ s.returned, r.2 = r.1
  issued : ∀ r ∈ s.returned, r.2.sequence ∈ s.timers.created.map Timer.sequence
  under : ∀ r ∈ s.returned, ∀ call ∈ s.calls, r.2.sequence ≠ call.sequence
  known : ∀ id, .cancelInLoop id ∈ s.functors → s.Known id

theorem Served.sequence_created (h : Served s) {call : TimerID} (hcall : call ∈ s.calls) :
    call.sequence ∈ s.timers.created.map Timer.sequence := by
  obtain ⟨u, hu, hseq⟩ := h.lives call hcall
  rw [← hseq]
  exact h.holding.ledger.live _ u hu

/-- No caller can cancel a timer whose `add_timer` has not returned. -/
theorem Served.not_cancelled (h : Served s) {id call : TimerID} (hknown : s.Known id)
    {tm : Timer} (hlive : s.timers.queue.heap id.timer = some tm)
    (hseq : tm.sequence = id.sequence) (hcall : call ∈ s.calls) : call.timer ≠ id.timer := by
  intro heq
  rcases hknown with hmem | hzero
  · obtain ⟨r, hr, rfl⟩ := List.mem_map.mp hmem
    obtain ⟨u, hu, hcseq⟩ := h.lives call hcall
    rw [heq, hlive] at hu
    cases hu
    exact h.under r hr call hcall (hseq.symm.trans hcseq)
  · rw [hzero, h.null] at hlive
    cases hlive

/-- What a step of the loop's thread leaves of the timers of the callers. -/
theorem Served.loop_lives (h : Served s) {l : TimerStep} {timers : TimerState}
    (hspares : s.Spares (.loop l)) (hlegal : s.Legal l)
    (heff : TimerState.Effect s.timers l timers) {call : TimerID} (hcall : call ∈ s.calls) :
    ∃ u, timers.queue.heap call.timer = some u ∧ u.sequence = call.sequence := by
  obtain ⟨u, hu, hseq⟩ := h.lives call hcall
  cases heff with
  | addTimer hfree _ hheap _ _ =>
    refine ⟨u, ?_, hseq⟩
    rw [hheap, Function.update_of_ne]
    · exact hu
    · rintro rfl
      rw [hfree] at hu
      cases hu
  | cancelFound hlive _ hcseq hheap _ _ =>
    refine ⟨u, ?_, hseq⟩
    rw [hheap, Function.update_of_ne (h.not_cancelled hlegal hlive hcseq hcall)]
    exact hu
  | cancelUnknown hheap _ _ => exact ⟨u, by rw [hheap]; exact hu, hseq⟩
  | beginRead _ hheap _ _ => exact ⟨u, by rw [hheap]; exact hu, hseq⟩
  | runNext _ _ => exact ⟨u, hu, hseq⟩
  | @endRead clock now ran q hbatch hheap =>
    have hout : s.timers.out = ran.map Entry.timer := by
      rw [TimerState.out, hbatch]
      exact congrArg (List.map Entry.timer) (List.append_nil ran)
    by_cases hran : call.timer ∈ ran.map Entry.timer
    · -- the call has queued its functor, since the timer was in the queue
      have hreading : call ∈ s.reading := by
        rcases List.mem_append.mp hcall with hcreating | hreading
        · have haway : call.timer ∈ s.away :=
            List.mem_append_left _ (List.mem_map_of_mem hcreating)
          exact absurd rfl ((List.nodup_append.mp h.holding.rep.nodup).2.2 call.timer
            (hout ▸ hran) call.timer haway)
        · exact hreading
      have hback := hspares call hreading (hout ▸ hran)
      rw [goesBack, hu] at hback
      have hkept : s.timers.queue.Kept call.timer u := of_decide_eq_true hback
      refine ⟨u.restart now, ?_, hseq⟩
      change q.heap call.timer = _
      rw [hheap, TimerQueue.heapAfter, if_pos hran, hu]
      exact if_pos hkept
    · refine ⟨u, ?_, hseq⟩
      change q.heap call.timer = _
      rw [hheap, TimerQueue.heapAfter, if_neg hran]
      exact hu

theorem null_of_effect {s t : TimerState} {l : TimerStep} (hl : s.Enabled l)
    (heff : TimerState.Effect s l t) (hnull : s.queue.heap 0 = none) : t.queue.heap 0 = none := by
  cases heff with
  | addTimer _ _ hheap _ _ =>
    rw [hheap, Function.update_of_ne (Ne.symm hl.2.1)]
    exact hnull
  | @cancelFound id tm q hlive hout hseq hheap hdeleted hcancel =>
    change q.heap 0 = none
    rw [hheap]
    by_cases hzero : 0 = id.timer
    · rw [← hzero, Function.update_self]
    · rw [Function.update_of_ne hzero]
      exact hnull
  | cancelUnknown hheap _ _ => exact (congrFun hheap 0).trans hnull
  | beginRead _ hheap _ _ => exact (congrFun hheap 0).trans hnull
  | runNext _ _ => exact hnull
  | endRead _ hheap =>
    rw [hheap, TimerQueue.heapAfter, hnull]
    exact ite_self _

theorem created_of_effect {s t : TimerState} {l : TimerStep} (heff : TimerState.Effect s l t) :
    ∀ n ∈ s.created.map Timer.sequence, n ∈ t.created.map Timer.sequence := by
  intro n hn
  cases heff with
  | addTimer _ _ _ _ _ =>
    rw [List.map_append]
    exact List.mem_append_left _ hn
  | cancelFound _ _ _ _ _ _ => exact hn
  | cancelUnknown _ _ _ => exact hn
  | beginRead _ _ _ _ => exact hn
  | runNext _ _ => exact hn
  | endRead _ _ => exact hn

/-- What a call of the loop's own thread returns is of a timer that is new in this
    step. -/
theorem mem_returns {s t : TimerState} {l : TimerStep} (hl : s.Enabled l)
    (heff : TimerState.Effect s l t) {r : TimerID × TimerID} (hr : r ∈ returns l) :
    r.2 = r.1 ∧ r.2.sequence ∉ s.created.map Timer.sequence ∧
      r.2.sequence ∈ t.created.map Timer.sequence := by
  cases heff with
  | addTimer _ hnew _ _ _ =>
    rw [returns, List.mem_singleton] at hr
    subst hr
    refine ⟨rfl, hnew, ?_⟩
    rw [List.map_append]
    exact List.mem_append_right _ (List.mem_singleton_self _)
  | cancelFound _ _ _ _ _ _ => cases hr
  | cancelUnknown _ _ _ => cases hr
  | beginRead _ _ _ _ => cases hr
  | runNext _ _ => cases hr
  | endRead _ _ => cases hr

theorem Known.mono {id : TimerID} (h : s.Known id) {more : List (TimerID × TimerID)}
    (hret : t.returned = s.returned ++ more) : t.Known id := by
  rcases h with hmem | hzero
  · left
    rw [hret, List.map_append]
    exact List.mem_append_left _ hmem
  · exact Or.inr hzero

theorem Served.loop (h : Served s) {l : TimerStep} {timers : TimerState}
    (hspares : s.Spares (.loop l)) (hl : s.timers.Enabled l) (hlegal : s.Legal l)
    (heff : TimerState.Effect s.timers l timers) (hhold : timers.Holding s.away) :
    Served { s with timers := timers, returned := s.returned ++ returns l } where
  holding := hhold
  null := null_of_effect hl heff h.null
  lives call hcall := h.loop_lives hspares hlegal heff hcall
  distinct := h.distinct
  own r hr := by
    rcases List.mem_append.mp hr with hr | hr
    · exact h.own r hr
    · exact (mem_returns hl heff hr).1
  issued r hr := by
    rcases List.mem_append.mp hr with hr | hr
    · exact created_of_effect heff _ (h.issued r hr)
    · exact (mem_returns hl heff hr).2.2
  under r hr call hcall := by
    rcases List.mem_append.mp hr with hr | hr
    · exact h.under r hr call hcall
    · intro heq
      apply (mem_returns hl heff hr).2.1
      rw [heq]
      exact h.sequence_created hcall
  known id hid := (h.known id hid).mono rfl

/-- The functors that cancel do it as the loop's own thread would. -/
theorem Served.cancel (h : Served s) {id : TimerID} {rest : List TimerFunctor}
    {timers : TimerState} (hfunctors : s.functors = .cancelInLoop id :: rest)
    (hidle : s.timers.batch = none) (heff : TimerState.Effect s.timers (.cancel id) timers)
    (hhold : timers.Holding s.away) :
    Served { s with timers := timers, functors := rest } := by
  have hid : s.Known id := h.known id (by rw [hfunctors]; exact List.mem_cons_self)
  have huser : s.timers.Enabled (.cancel id) := by
    change TimerState.UserCode s.timers
    rw [TimerState.UserCode, hidle]
    trivial
  have haway : s.away = away { s with timers := timers, functors := rest } := by
    rw [away, hfunctors]
    rfl
  have hserved := h.loop (l := .cancel id) trivial huser hid heff hhold
  refine ⟨haway ▸ hhold, hserved.null, hserved.lives, h.distinct, h.own, ?_, h.under, ?_⟩
  · intro r hr
    exact created_of_effect heff _ (h.issued r hr)
  · intro id' hid'
    apply h.known id'
    rw [hfunctors]
    exact List.mem_cons_of_mem _ hid'

theorem Served.newTimer (h : Served s) {a : Nat} {tm : Timer} (hnull : a ≠ 0)
    (hfree : s.timers.queue.heap a = none)
    (hnew : tm.sequence ∉ s.timers.created.map Timer.sequence)
    (hhold : (TimerState.mk (s.timers.queue.store a tm) s.timers.batch s.timers.fired
      (s.timers.created ++ [tm])).Holding (away { s with
        creating := s.creating ++ [⟨a, tm.sequence⟩] })) :
    Served { s with
      timers := { s.timers with
        queue := s.timers.queue.store a tm
        created := s.timers.created ++ [tm] }
      creating := s.creating ++ [⟨a, tm.sequence⟩] } := by
  have hcalls : ∀ call, call ∈ (s.creating ++ [TimerID.mk a tm.sequence]) ++ s.reading →
      call = ⟨a, tm.sequence⟩ ∨ call ∈ s.calls := by
    intro call hcall
    simp only [List.mem_append, List.mem_singleton] at hcall
    simp only [calls, List.mem_append]
    tauto
  refine ⟨hhold, ?_, ?_, ?_, h.own, ?_, ?_, fun id hid => (h.known id hid).mono
    (List.append_nil _).symm⟩
  · exact (Function.update_of_ne (Ne.symm hnull) _ _).trans h.null
  · intro call hcall
    rcases hcalls call hcall with rfl | hcall
    · exact ⟨tm, Function.update_self a _ _, rfl⟩
    · obtain ⟨u, hu, hseq⟩ := h.lives call hcall
      refine ⟨u, (Function.update_of_ne ?_ _ _).trans hu, hseq⟩
      intro heq
      rw [heq, hfree] at hu
      cases hu
  · have hperm : ((s.creating ++ [TimerID.mk a tm.sequence]) ++ s.reading).Perm
        (⟨a, tm.sequence⟩ :: s.calls) := by
      rw [List.append_assoc]
      exact List.perm_middle
    change (((s.creating ++ [TimerID.mk a tm.sequence]) ++ s.reading).map TimerID.sequence).Nodup
    rw [(hperm.map TimerID.sequence).nodup_iff, List.map_cons, List.nodup_cons]
    refine ⟨?_, h.distinct⟩
    intro hmem
    obtain ⟨call, hcall, hseq⟩ := List.mem_map.mp hmem
    have hold := h.sequence_created hcall
    rw [hseq] at hold
    exact hnew hold
  · intro r hr
    rw [List.map_append]
    exact List.mem_append_left _ (h.issued r hr)
  · intro r hr call hcall
    rcases hcalls call hcall with rfl | hcall
    · intro heq
      have hold := h.issued r hr
      rw [heq] at hold
      exact hnew hold
    · exact h.under r hr call hcall

theorem Served.readSequence (h : Served s) {call : TimerID} {tm : Timer} (hcall : call ∈ s.reading)
    (hlive : s.timers.queue.heap call.timer = some tm)
    (hhold : s.timers.Holding (away { s with
      reading := s.reading.erase call
      returned := s.returned ++ [(call, ⟨call.timer, tm.sequence⟩)] })) :
    Served { s with
      reading := s.reading.erase call
      returned := s.returned ++ [(call, ⟨call.timer, tm.sequence⟩)] } := by
  have hperm : s.calls.Perm (call :: (s.creating ++ s.reading.erase call)) :=
    (List.Perm.append_left _ (List.perm_cons_erase hcall)).trans List.perm_middle
  have hcalls : call ∈ s.calls := List.mem_append_right _ hcall
  -- the read finds the call's own timer
  have hseq : tm.sequence = call.sequence := by
    obtain ⟨u, hu, hseq⟩ := h.lives call hcalls
    rw [hlive] at hu
    cases hu
    exact hseq
  have hdistinct := (hperm.map TimerID.sequence).nodup_iff.mp h.distinct
  rw [List.map_cons, List.nodup_cons] at hdistinct
  refine ⟨hhold, h.null, ?_, hdistinct.2, ?_, ?_, ?_, fun id hid => (h.known id hid).mono rfl⟩
  · intro c hc
    exact h.lives c (hperm.mem_iff.mpr (List.mem_cons_of_mem _ hc))
  · intro r hr
    rcases List.mem_append.mp hr with hr | hr
    · exact h.own r hr
    · rw [List.mem_singleton] at hr
      subst hr
      rw [hseq]
  · intro r hr
    rcases List.mem_append.mp hr with hr | hr
    · exact h.issued r hr
    · rw [List.mem_singleton] at hr
      subst hr
      exact h.holding.ledger.live _ tm hlive
  · intro r hr c hc
    rcases List.mem_append.mp hr with hr | hr
    · exact h.under r hr c (hperm.mem_iff.mpr (List.mem_cons_of_mem _ hc))
    · rw [List.mem_singleton] at hr
      subst hr
      change tm.sequence ≠ c.sequence
      rw [hseq]
      intro heq
      exact hdistinct.1 (List.mem_map.mpr ⟨c, hc, heq.symm⟩)

theorem Served.step (h : Served s) {l : ThreadStep} (hspares : s.Spares l)
    (hmoves : Moves s l t) (hhold : t.timers.Holding t.away) : Served t := by
  cases hmoves with
  | loop hl hlegal heff => exact h.loop hspares hl hlegal heff hhold
  | insert _ hfunctors hheap _ =>
    refine ⟨hhold, ?_, ?_, h.distinct, h.own, h.issued, h.under, ?_⟩
    · exact (congrFun hheap 0).trans h.null
    · intro call hcall
      obtain ⟨u, hu, hseq⟩ := h.lives call hcall
      exact ⟨u, (congrFun hheap _).trans hu, hseq⟩
    · intro id hid
      apply h.known id
      rw [hfunctors]
      exact List.mem_cons_of_mem _ hid
  | @cancel id clock rest timers hidle hfunctors _ heff =>
    have haway : s.away = away { s with timers := timers, functors := rest } := by
      rw [away, hfunctors]
      rfl
    exact h.cancel hfunctors hidle heff (haway ▸ hhold)
  | newTimer hnull hfree hnew => exact h.newTimer hnull hfree hnew hhold
  | @queueAdd call hcall =>
    have hperm : s.calls.Perm (s.creating.erase call ++ (s.reading ++ [call])) := by
      rw [← List.append_assoc]
      refine (List.Perm.append_right _ (List.perm_cons_erase hcall)).trans ?_
      exact (List.perm_append_singleton _ _).symm
    refine ⟨hhold, h.null, ?_, ?_, h.own, h.issued, ?_, ?_⟩
    · intro c hc
      exact h.lives c (hperm.mem_iff.mpr hc)
    · exact (hperm.map TimerID.sequence).nodup_iff.mp h.distinct
    · intro r hr c hc
      exact h.under r hr c (hperm.mem_iff.mpr hc)
    · intro id hid
      rcases List.mem_append.mp hid with hid | hid
      · exact h.known id hid
      · cases List.mem_singleton.mp hid
  | readSequence hcall hlive => exact h.readSequence hcall hlive hhold
  | queueCancel hknown =>
    refine ⟨hhold, h.null, h.lives, h.distinct, h.own, h.issued, h.under, ?_⟩
    intro id hid
    rcases List.mem_append.mp hid with hid | hid
    · exact (h.known id hid).mono (List.append_nil _).symm
    · cases List.mem_singleton.mp hid
      exact hknown.mono (List.append_nil _).symm

/-- The timer that a call is about to read is there, with the sequence it was
    constructed with, and every `Timer_ID` that was returned is of the timer its
    call constructed. -/
def AddsSafely (s : SharedTimers) : Prop :=
  (∀ call ∈ s.reading, ∃ t, s.timers.queue.deref call.timer = .ok t ∧
    t.sequence = call.sequence) ∧
  ∀ r ∈ s.returned, r.2 = r.1

/-- **A foreign `add_timer`.** It is safe in every run in which no `reset` deletes
    an expired timer whose `add_timer` has not returned. -/
theorem foreign_add_timer (h : (system.restrict Spares).Reachable s) : AddsSafely s := by
  have hserved : Served s := by
    apply h.invariant
    · rintro _ rfl
      exact ⟨new_holding, rfl, nofun, List.nodup_nil, nofun, nofun, nofun, nofun⟩
    · intro s l t hs hstep
      obtain ⟨hmoves, hhold⟩ := step_moves hs.holding hstep.2
      exact hs.step hstep.1 hmoves hhold
  refine ⟨?_, hserved.own⟩
  intro call hcall
  obtain ⟨t, ht, hseq⟩ := hserved.lives call (List.mem_append_right _ hcall)
  exact ⟨t, TimerQueue.deref_ok ht, hseq⟩

theorem foreign_add_timer_repeating :
    ∃ s : SharedTimers, (system.restrict Spares).Reachable s ∧ s.reading = [⟨16, 1⟩] ∧
      s.timers.fired = [⟨0, 5⟩, ⟨1, 5⟩] ∧ AddsSafely s := by
  -- both timers are in the past; the call for the repeating one is late
  let tr : List ThreadStep :=
    [.newTimer 8 ⟨-3, 0, false, 0⟩, .queueAdd ⟨8, 0⟩, .readSequence ⟨8, 0⟩, .runFunctor 4,
      .newTimer 16 ⟨-3, 10, true, 1⟩, .queueAdd ⟨16, 1⟩, .runFunctor 4, .loop (.beginRead 5),
      .loop .runNext, .loop .runNext, .loop (.endRead 6)]
  have hval : (Transition.System.follow (fun s l => Spares s l ∧ Enabled s l)
      (fun s l => (s.next l).toOption) new tr).map (fun s => (s.reading, s.timers.fired)) =
      some ([⟨16, 1⟩], [⟨0, 5⟩, ⟨1, 5⟩]) := by
    decide +kernel
  obtain ⟨s, hs, heq⟩ := Option.map_eq_some_iff.mp hval
  obtain ⟨hreading, hfired⟩ := Prod.mk.inj heq
  have hrun : (system.restrict Spares).Run new tr s := by
    refine .of_follow ?_ hs
    intro s l t hl hnext
    exact ⟨hl.1, hl.2, eq_ok_of_toOption hnext⟩
  exact ⟨s, ⟨new, tr, rfl, hrun⟩, hreading, hfired, foreign_add_timer ⟨new, tr, rfl, hrun⟩⟩

/-- The loop's thread runs the functor, fires the timer and deletes it before the
    caller reads its sequence. -/
theorem foreign_add_timer_dangling : ¬ ∀ s, system.Reachable s → AddsSafely s := by
  intro hall
  let tr : List ThreadStep :=
    [.newTimer 8 ⟨-3, 0, false, 0⟩, .queueAdd ⟨8, 0⟩, .runFunctor 4, .loop (.beginRead 5),
      .loop .runNext, .loop (.endRead 6)]
  have hval : (new.after tr).map (fun s => (s.reading, s.timers.queue.heap 8)) =
      some ([⟨8, 0⟩], none) := by
    decide +kernel
  obtain ⟨s, hs, heq⟩ := Option.map_eq_some_iff.mp hval
  obtain ⟨hreading, hheap⟩ := Prod.mk.inj heq
  have hsafe := hall s ⟨new, tr, rfl, run_of_after hs⟩
  obtain ⟨t, ht, _⟩ := hsafe.1 ⟨8, 0⟩ (by rw [hreading]; exact List.mem_singleton_self _)
  rw [TimerQueue.deref, hheap] at ht
  cases ht

end SharedTimers

end DamnWebServer
