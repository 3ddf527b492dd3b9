import DamnWebServer.Lib.Transition
import DamnWebServer.Net.TimerQueueRep

/-!
# Runs of the timer queue

Any sequence of `add_timer`, `cancel` and `handle_read` in the loop's thread, at
any clock values. A `handle_read` is a batch: it begins with `get_expired`, runs
one callback after the other, and ends with `reset`; while a callback runs it
may add and cancel timers. Addresses come from the allocator, which may hand out
again what was deleted; sequences come from `num_created_`, which many queues
share, so a new one is only known to be new.
-/

namespace DamnWebServer

/-- A `handle_read` under way: `expired`, cut after the callbacks started. -/
structure Batch where
  now : Timestamp
  ran : List Entry
  todo : List Entry
  deriving DecidableEq

def Batch.expired (b : Batch) : List Entry := b.ran ++ b.todo

structure Firing where
  sequence : Int
  now : Timestamp
  deriving DecidableEq, Repr

structure TimerState where
  queue : TimerQueue
  batch : Option Batch
  /-- The callbacks run so far. -/
  fired : List Firing
  /-- The timers added so far, as they were added. -/
  created : List Timer

inductive TimerStep where
  | addTimer (a : Nat) (t : Timer) (clock : Timestamp)
  | cancel (id : TimerID)
  | beginRead (now : Timestamp)
  | runNext
  | endRead (clock : Timestamp)
  deriving DecidableEq

/-- What may happen between the two ends of a `handle_read`. -/
def TimerStep.inBatch : TimerStep → Bool
  | .beginRead _ | .endRead _ => false
  | _ => true

namespace TimerState

def new : TimerState := ⟨.empty, none, [], []⟩

/-- The own thread is outside `handle_read`, or in a callback. -/
def UserCode (s : TimerState) : Prop :=
  match s.batch with
  | none => True
  | some b => b.ran ≠ []

def Enabled (s : TimerState) : TimerStep → Prop
  | .addTimer a t _ =>
    s.UserCode ∧ a ≠ 0 ∧ a < uintptrMax ∧ s.queue.heap a = none ∧
      0 ≤ t.sequence ∧ t.sequence < 2 ^ 63 ∧ t.sequence ∉ s.created.map Timer.sequence
  | .cancel _ => s.UserCode
  | .beginRead _ => s.batch = none
  | .runNext => ∃ b, s.batch = some b ∧ b.todo ≠ []
  | .endRead _ => ∃ b, s.batch = some b ∧ b.todo = []

instance (s : TimerState) : Decidable s.UserCode := by
  unfold UserCode
  split <;> infer_instance

instance {α : Type} (x : Option α) (P : α → Prop) [DecidablePred P] :
    Decidable (∃ b, x = some b ∧ P b) :=
  match x with
  | none => .isFalse nofun
  | some b => decidable_of_iff (P b) ⟨fun h => ⟨b, rfl, h⟩, fun ⟨_, hb, h⟩ => by cases hb; exact h⟩

instance (s : TimerState) (l : TimerStep) : Decidable (s.Enabled l) :=
  match l with
  | .addTimer _ _ _ => inferInstanceAs (Decidable (_ ∧ _))
  | .cancel _ => inferInstanceAs (Decidable s.UserCode)
  | .beginRead _ => inferInstanceAs (Decidable (s.batch = none))
  | .runNext | .endRead _ => inferInstanceAs (Decidable (∃ b, s.batch = some b ∧ _))

def next (s : TimerState) : TimerStep → Except Fault TimerState
  | .addTimer a t clock => do
    let q ← (s.queue.store a t).addTimerInLoop a clock
    return { s with queue := q, created := s.created ++ [t] }
  | .cancel id => do
    let q ← s.queue.cancelInLoop id
    return { s with queue := q }
  | .beginRead now => do
    let r ← s.queue.beginRead now
    return { s with queue := r.1, batch := some ⟨now, [], r.2⟩ }
  | .runNext =>
    match s.batch with
    | some ⟨now, ran, e :: todo⟩ => do
      let t ← s.queue.deref e.timer
      return { s with
        batch := some ⟨now, ran ++ [e], todo⟩
        fired := s.fired ++ [⟨t.sequence, now⟩] }
    | _ => .ok s
  | .endRead clock =>
    match s.batch with
    | some b => do
      let q ← s.queue.endRead b.expired b.now clock
      return { s with queue := q, batch := none }
    | none => .ok s

def system : Transition.System TimerState TimerStep where
  init s := s = new
  step s l t := s.Enabled l ∧ s.next l = .ok t

/-- The state after some steps, if they are enabled and return. -/
def after (s : TimerState) (tr : List TimerStep) : Option TimerState :=
  Transition.System.follow Enabled (fun s l => (s.next l).toOption) s tr

theorem run_of_after {s t : TimerState} {tr : List TimerStep} (h : s.after tr = some t) :
    system.Run s tr t := by
  refine .of_follow ?_ h
  intro s l t hl hnext
  exact ⟨hl, eq_ok_of_toOption hnext⟩

/-- The addresses that the running batch holds. -/
def out (s : TimerState) : List Nat :=
  match s.batch with
  | none => []
  | some b => b.expired.map Entry.timer

/-- What a step does, seen from outside the queue. -/
inductive Effect (s : TimerState) : TimerStep → TimerState → Prop where
  | addTimer {a : Nat} {t : Timer} {clock : Timestamp} {q : TimerQueue}
      (hfree : s.queue.heap a = none) (hnew : t.sequence ∉ s.created.map Timer.sequence)
      (hheap : q.heap = Function.update s.queue.heap a (some t))
      (hdeleted : q.deleted = s.queue.deleted)
      (hcancel : q.cancelingTimers = s.queue.cancelingTimers) :
      Effect s (.addTimer a t clock) { s with queue := q, created := s.created ++ [t] }
  | cancelFound {id : TimerID} {t : Timer} {q : TimerQueue}
      (hlive : s.queue.heap id.timer = some t) (hout : id.timer ∉ s.out)
      (hseq : t.sequence = id.sequence)
      (hheap : q.heap = Function.update s.queue.heap id.timer none)
      (hdeleted : q.deleted = s.queue.deleted ++ [t.sequence])
      (hcancel : q.cancelingTimers = s.queue.cancelingTimers) :
      Effect s (.cancel id) { s with queue := q }
  | cancelUnknown {id : TimerID} {q : TimerQueue}
      (hheap : q.heap = s.queue.heap) (hdeleted : q.deleted = s.queue.deleted)
      (hcancel : ∀ x, s.batch ≠ none → (x ∈ q.cancelingTimers ↔
        x = ActiveTimer.mk id.timer id.sequence ∨ x ∈ s.queue.cancelingTimers)) :
      Effect s (.cancel id) { s with queue := q }
  | beginRead {now : Timestamp} {q : TimerQueue} (hidle : s.batch = none)
      (hheap : q.heap = s.queue.heap) (hdeleted : q.deleted = s.queue.deleted)
      (hcancel : q.cancelingTimers = .empty) :
      Effect s (.beginRead now) { s with queue := q, batch := some ⟨now, [], s.queue.due now⟩ }
  | runNext {now : Timestamp} {ran todo : List Entry} {e : Entry} {t : Timer}
      (hbatch : s.batch = some ⟨now, ran, e :: todo⟩) (hlive : s.queue.heap e.timer = some t) :
      Effect s .runNext { s with
        batch := some ⟨now, ran ++ [e], todo⟩, fired := s.fired ++ [⟨t.sequence, now⟩] }
  | endRead {clock now : Timestamp} {ran : List Entry} {q : TimerQueue}
      (hbatch : s.batch = some ⟨now, ran, []⟩)
      (hheap : q.heap = s.queue.heapAfter now (ran.map Entry.timer)) :
      Effect s (.endRead clock) { s with queue := q, batch := none }

-- ════════════════════════════════════════════════════════════════════════
-- Representation and ownership
-- ════════════════════════════════════════════════════════════════════════

structure Sound (s : TimerState) : Prop where
  rep : s.queue.Rep s.out
  ledger : s.queue.Ledger (s.created.map Timer.sequence)
  calling : s.queue.callingExpiredTimers = s.batch.isSome

/-- The same with further addresses out of the queue, which somebody else holds. -/
structure Holding (s : TimerState) (away : List Nat) : Prop where
  rep : s.queue.Rep (s.out ++ away)
  ledger : s.queue.Ledger (s.created.map Timer.sequence)
  calling : s.queue.callingExpiredTimers = s.batch.isSome

variable {s t : TimerState} {away : List Nat}

theorem Sound.holding (h : Sound s) : Holding s [] :=
  ⟨by rw [List.append_nil]; exact h.rep, h.ledger, h.calling⟩

theorem Holding.sound (h : Holding s []) : Sound s :=
  ⟨by rw [← List.append_nil s.out]; exact h.rep, h.ledger, h.calling⟩

/-- A new timer, not yet in the queue. -/
theorem Holding.ledger_store (h : Holding s away) {a : Nat} {tm : Timer}
    (hnew : tm.sequence ∉ s.created.map Timer.sequence) :
    (s.queue.store a tm).Ledger ((s.created ++ [tm]).map Timer.sequence) := by
  rw [List.map_append]
  have hmore : s.queue.Ledger (s.created.map Timer.sequence ++ [tm].map Timer.sequence) :=
    ⟨h.ledger.once, h.ledger.gone, h.ledger.unique,
      fun b u hu => List.mem_append_left _ (h.ledger.live b u hu),
      fun n hn => List.mem_append_left _ (h.ledger.dead n hn)⟩
  refine hmore.store (List.mem_append_right _ (List.mem_singleton_self _))
    (fun hmem => hnew (h.ledger.dead _ hmem)) ?_
  intro b u hu heq
  exact absurd (heq ▸ h.ledger.live b u hu) hnew

theorem addTimer_spec (h : Holding s away) {a : Nat} {tm : Timer} {clock : Timestamp}
    (hl : s.Enabled (.addTimer a tm clock)) :
    ∃ t, s.next (.addTimer a tm clock) = .ok t ∧ Effect s (.addTimer a tm clock) t ∧
      Holding t away := by
  obtain ⟨_, _, hbound, hfree, _, _, hnew⟩ := hl
  obtain ⟨ts, as, hok, hrep⟩ := TimerQueue.addTimerInLoop_spec
    (h.rep.store_new (t := tm) hfree hbound) (Function.update_self a _ _) clock
  refine ⟨{ s with
    queue := { s.queue.store a tm with
      timers := ts, activeTimers := as
      timerfd := s.queue.timerfd ++ (s.queue.store a tm).armingFor tm.expiration clock }
    created := s.created ++ [tm] }, ?_, .addTimer hfree hnew rfl rfl rfl, hrep,
    (h.ledger_store hnew).congr rfl rfl, h.calling⟩
  simp only [next, hok, bind, Except.bind]
  rfl

/-- The timer is in the queue: its cancellation will find it there. -/
def Waits (s : TimerState) (away : List Nat) (id : TimerID) : Prop :=
  ∃ tm, s.queue.heap id.timer = some tm ∧ id.timer ∉ s.out ++ away ∧ tm.sequence = id.sequence

theorem cancel_found (h : Holding s away) {id : TimerID} (hwaits : s.Waits away id) :
    ∃ t, s.next (.cancel id) = .ok t ∧ Effect s (.cancel id) t ∧ Holding t away ∧
      t.queue.heap = Function.update s.queue.heap id.timer none ∧ t.batch = s.batch := by
  obtain ⟨tm, hlive, hout, hseq⟩ := hwaits
  obtain ⟨ts, as, hok, hrep⟩ := TimerQueue.cancelInLoop_found h.rep hlive hout hseq
  refine ⟨{ s with queue := { s.queue.remove id.timer tm with
    timers := ts, activeTimers := as } }, ?_,
    .cancelFound hlive (fun hmem => hout (List.mem_append_left _ hmem)) hseq rfl rfl rfl,
    ⟨hrep, (h.ledger.remove hlive).congr rfl rfl, h.calling⟩, rfl, rfl⟩
  simp only [next, hok, bind, Except.bind]
  rfl

theorem cancel_unknown (h : Holding s away) {id : TimerID} (hwaits : ¬ s.Waits away id) :
    ∃ t, s.next (.cancel id) = .ok t ∧ Effect s (.cancel id) t ∧ Holding t away ∧
      t.queue.heap = s.queue.heap ∧ t.batch = s.batch ∧
      (s.batch ≠ none → ActiveTimer.mk id.timer id.sequence ∈ t.queue.cancelingTimers) := by
  have hok := TimerQueue.cancelInLoop_unknown h.rep id fun tm hlive hout hseq =>
    hwaits ⟨tm, hlive, hout, hseq⟩
  have hcanceling : ∀ x, s.batch ≠ none →
      (x ∈ (if s.queue.callingExpiredTimers = true then
          (s.queue.cancelingTimers.insert (.mk id.timer id.sequence)).1
        else s.queue.cancelingTimers) ↔
        x = ActiveTimer.mk id.timer id.sequence ∨ x ∈ s.queue.cancelingTimers) := by
    intro x hbatch
    have hcall : s.queue.callingExpiredTimers = true := by
      rw [h.calling]
      exact Option.isSome_iff_ne_none.mpr hbatch
    rw [if_pos hcall, OrderedSet.mem_insert]
  refine ⟨{ s with queue := { s.queue with cancelingTimers :=
    if s.queue.callingExpiredTimers then
      (s.queue.cancelingTimers.insert (.mk id.timer id.sequence)).1
    else s.queue.cancelingTimers } }, ?_, .cancelUnknown rfl rfl hcanceling,
    ⟨⟨h.rep.timers, h.rep.active, h.rep.live, h.rep.nodup, h.rep.bound⟩,
      h.ledger.congr rfl rfl, h.calling⟩, rfl, rfl,
    fun hbatch => (hcanceling _ hbatch).mpr (Or.inl rfl)⟩
  simp only [next, hok, bind, Except.bind]
  rfl

theorem cancel_spec (h : Holding s away) (id : TimerID) :
    ∃ t, s.next (.cancel id) = .ok t ∧ Effect s (.cancel id) t ∧ Holding t away := by
  by_cases hwaits : s.Waits away id
  · obtain ⟨t, hok, heff, ht, _⟩ := cancel_found h hwaits
    exact ⟨t, hok, heff, ht⟩
  · obtain ⟨t, hok, heff, ht, _⟩ := cancel_unknown h hwaits
    exact ⟨t, hok, heff, ht⟩

theorem beginRead_spec (h : Holding s away) (hidle : s.batch = none) (now : Timestamp) :
    ∃ t, s.next (.beginRead now) = .ok t ∧ Effect s (.beginRead now) t ∧ Holding t away := by
  have hrep := h.rep
  rw [out, hidle] at hrep
  obtain ⟨q, hok, hrep', hheap, hdel, hcancel, hcall, _⟩ := TimerQueue.beginRead_spec hrep now
  refine ⟨{ s with queue := q, batch := some ⟨now, [], s.queue.due now⟩ }, ?_,
    .beginRead hidle hheap hdel hcancel, hrep', h.ledger.congr hheap hdel, hcall⟩
  simp only [next, hok, bind, Except.bind]
  rfl

theorem runNext_spec (h : Holding s away) (hl : s.Enabled .runNext) :
    ∃ t, s.next .runNext = .ok t ∧ Effect s .runNext t ∧ Holding t away := by
  obtain ⟨⟨now, ran, todo⟩, hbatch, htodo⟩ := hl
  obtain ⟨e, es, rfl⟩ := List.exists_cons_of_ne_nil htodo
  have hout : s.out = (ran ++ e :: es).map Entry.timer := by
    rw [out, hbatch]
    rfl
  obtain ⟨tm, hlive⟩ := h.rep.live e.timer
    (List.mem_append_left _ (by
      rw [hout]
      exact List.mem_map_of_mem (List.mem_append_right _ List.mem_cons_self)))
  refine ⟨{ s with
    batch := some ⟨now, ran ++ [e], es⟩, fired := s.fired ++ [⟨tm.sequence, now⟩] }, ?_,
    .runNext hbatch hlive, ?_, h.ledger, ?_⟩
  · simp only [next, hbatch, TimerQueue.deref_ok hlive, bind, Except.bind]
    rfl
  · have hrep := h.rep
    rw [hout, List.append_cons] at hrep
    exact hrep
  · have hcall := h.calling
    rw [hbatch] at hcall
    exact hcall

theorem endRead_spec (h : Holding s away) {clock : Timestamp} (hl : s.Enabled (.endRead clock)) :
    ∃ t, s.next (.endRead clock) = .ok t ∧ Effect s (.endRead clock) t ∧ Holding t away := by
  obtain ⟨⟨now, ran, todo⟩, hbatch, htodo⟩ := hl
  cases htodo
  have hexp : Batch.expired ⟨now, ran, []⟩ = ran := List.append_nil ran
  have hrep := h.rep
  rw [out, hbatch] at hrep
  obtain ⟨q, hok, hrep', hled, hheap, hcall, _⟩ :=
    TimerQueue.endRead_spec now clock hrep h.ledger
  rw [hexp] at hheap
  refine ⟨{ s with queue := q, batch := none }, ?_, .endRead hbatch hheap, hrep', hled, hcall⟩
  simp only [next, hbatch, hok, bind, Except.bind]
  rfl

/-- Every step returns, does what `Effect` says, and keeps the queue sound. -/
theorem Holding.next_spec (h : Holding s away) {l : TimerStep} (hl : s.Enabled l) :
    ∃ t, s.next l = .ok t ∧ Effect s l t ∧ Holding t away := by
  cases l with
  | addTimer a tm clock => exact addTimer_spec h hl
  | cancel id => exact cancel_spec h id
  | beginRead now => exact beginRead_spec h hl now
  | runNext => exact runNext_spec h hl
  | endRead clock => exact endRead_spec h hl

theorem next_spec (h : Sound s) {l : TimerStep} (hl : s.Enabled l) :
    ∃ t, s.next l = .ok t ∧ Effect s l t ∧ Sound t := by
  obtain ⟨t, hok, heff, ht⟩ := h.holding.next_spec hl
  exact ⟨t, hok, heff, ht.sound⟩

theorem step_spec (h : Sound s) {l : TimerStep} (hstep : system.step s l t) :
    Effect s l t ∧ Sound t := by
  obtain ⟨u, hu, heff, hs⟩ := next_spec h hstep.1
  rw [hstep.2] at hu
  cases hu
  exact ⟨heff, hs⟩

theorem new_sound : Sound new := by
  refine ⟨⟨?_, ?_, nofun, List.nodup_nil, nofun⟩, ⟨List.nodup_nil, nofun, nofun, nofun, nofun⟩, rfl⟩
  · intro e
    exact ⟨fun h => absurd h (OrderedSet.not_mem_empty e), nofun⟩
  · intro x
    exact ⟨fun h => absurd h (OrderedSet.not_mem_empty x), nofun⟩

theorem reachable_sound (h : system.Reachable s) : Sound s := by
  refine h.invariant ?_ ?_
  · rintro _ rfl
    exact new_sound
  · intro s l t hs hstep
    exact (step_spec hs hstep).2

/-- While a batch holds an address, the timer there is the same one, unchanged. -/
theorem Effect.held (h : Sound s) {l : TimerStep} (heff : Effect s l t) {a : Nat} (ha : a ∈ s.out)
    (ha' : a ∈ t.out) : t.queue.heap a = s.queue.heap a := by
  cases heff with
  | addTimer hfree _ hheap _ _ =>
    obtain ⟨u, hu⟩ := h.rep.live a ha
    refine (congrFun hheap a).trans (TimerQueue.heap_update_of_ne ?_)
    rintro rfl
    rw [hfree] at hu
    cases hu
  | cancelFound _ hout _ hheap _ _ =>
    refine (congrFun hheap a).trans (TimerQueue.heap_update_of_ne ?_)
    rintro rfl
    exact hout ha
  | cancelUnknown hheap _ _ => exact congrFun hheap a
  | beginRead _ hheap _ _ => exact congrFun hheap a
  | runNext _ _ => rfl
  | endRead _ _ => exact absurd ha' List.not_mem_nil

/-- **Representation and ownership.** In every reachable state the two sets hold
    the same timers, each under its current expiration and its sequence; no timer
    has been deleted twice and no deleted one is left; no call fails an assertion
    or uses a deleted timer; and what a batch holds stays as it is while it is
    held. -/
theorem timer_sets_agree (h : system.Reachable s) :
    (∀ a, (∃ e ∈ s.queue.timers, e.timer = a) ↔ ∃ x ∈ s.queue.activeTimers, x.timer = a) ∧
      (∀ e ∈ s.queue.timers, ∃ t, s.queue.heap e.timer = some t ∧ t.expiration = e.when) ∧
      (∀ x ∈ s.queue.activeTimers, ∃ t, s.queue.heap x.timer = some t ∧
        t.sequence = x.sequence) ∧
      s.queue.deleted.Nodup ∧
      (∀ a t, s.queue.heap a = some t → t.sequence ∉ s.queue.deleted) ∧
      (∀ l, s.Enabled l → ∃ t, s.next l = .ok t) ∧
      ∀ l t, system.step s l t → ∀ a ∈ s.out, a ∈ t.out → t.queue.heap a = s.queue.heap a := by
  have hs := reachable_sound h
  refine ⟨?_, ?_, ?_, hs.ledger.once, hs.ledger.gone, ?_, ?_⟩
  · intro a
    constructor
    · rintro ⟨e, he, rfl⟩
      obtain ⟨t, ht, hno, _⟩ := (hs.rep.timers e).mp he
      exact ⟨.mk e.timer t.sequence, (hs.rep.active _).mpr ⟨t, ht, hno, rfl⟩, rfl⟩
    · rintro ⟨x, hx, rfl⟩
      obtain ⟨t, ht, hno, _⟩ := (hs.rep.active x).mp hx
      exact ⟨.mk t.expiration x.timer, (hs.rep.timers _).mpr ⟨t, ht, hno, rfl⟩, rfl⟩
  · intro e he
    obtain ⟨t, ht, _, hw⟩ := (hs.rep.timers e).mp he
    exact ⟨t, ht, hw⟩
  · intro x hx
    obtain ⟨t, ht, _, hq⟩ := (hs.rep.active x).mp hx
    exact ⟨t, ht, hq⟩
  · intro l hl
    obtain ⟨t, ht, _⟩ := next_spec hs hl
    exact ⟨t, ht⟩
  · intro l t hstep a ha ha'
    exact (step_spec hs hstep).1.held hs ha ha'

theorem timer_sets_agree_reuse :
    ∃ s : TimerState, system.Reachable s ∧ s.queue.deleted = [0] ∧ s.created.map Timer.sequence = [0, 1] ∧
      s.queue.deleted.Nodup := by
  -- the address of a cancelled timer is handed out again, and the stale id does no harm
  have hval : (new.after [.addTimer 8 ⟨5, 0, false, 0⟩ 1, .cancel ⟨8, 0⟩,
      .addTimer 8 ⟨7, 0, false, 1⟩ 2, .cancel ⟨8, 0⟩]).map
        (fun s => (s.queue.deleted, s.created.map Timer.sequence)) = some ([0], [0, 1]) := by
    decide
  obtain ⟨s, hs, heq⟩ := Option.map_eq_some_iff.mp hval
  obtain ⟨hdel, hcreated⟩ := Prod.mk.inj heq
  have hreach : system.Reachable s := ⟨_, _, rfl, run_of_after hs⟩
  exact ⟨s, hreach, hdel, hcreated, (timer_sets_agree hreach).2.2.2.1⟩

-- ════════════════════════════════════════════════════════════════════════
-- One batch
-- ════════════════════════════════════════════════════════════════════════

/-- The firing of an entry at `now`. -/
def firing (s : TimerState) (now : Timestamp) (e : Entry) : Firing :=
  ⟨((s.queue.heap e.timer).map Timer.sequence).getD 0, now⟩

/-- A batch that began at `now` in `s`, after the steps `tr`. -/
structure During (s : TimerState) (now : Timestamp) (tr : List TimerStep) (u : TimerState) :
    Prop where
  batch : ∃ ran todo, u.batch = some ⟨now, ran, todo⟩ ∧ ran ++ todo = s.queue.due now ∧
    u.fired = s.fired ++ ran.map (s.firing now)
  held : ∀ e ∈ s.queue.due now, u.queue.heap e.timer = s.queue.heap e.timer
  cancelled : ∀ e ∈ s.queue.due now, ∀ n,
    ActiveTimer.mk e.timer n ∈ u.queue.cancelingTimers ↔ .cancel ⟨e.timer, n⟩ ∈ tr
  later : ∀ a t, s.queue.heap a = some t → a ∉ (s.queue.due now).map Entry.timer →
    u.queue.heap a = some t ∨ .cancel ⟨a, t.sequence⟩ ∈ tr

theorem During.begin {now : Timestamp} (heff : Effect s (.beginRead now) t) :
    During s now [] t := by
  cases heff with
  | beginRead _ hheap _ hcancel =>
    refine ⟨⟨[], _, rfl, rfl, (List.append_nil _).symm⟩, fun e _ => congrFun hheap _, ?_, ?_⟩
    · intro e _ n
      rw [hcancel]
      exact ⟨fun hmem => absurd hmem (OrderedSet.not_mem_empty _), nofun⟩
    · intro a u hu _
      exact Or.inl ((congrFun hheap a).trans hu)

variable {now : Timestamp} {tr : List TimerStep} {u v : TimerState}

theorem During.out (h : During s now tr u) : u.out = (s.queue.due now).map Entry.timer := by
  obtain ⟨ran, todo, hbatch, hdue, _⟩ := h.batch
  rw [TimerState.out, hbatch, ← hdue]
  rfl

/-- A cancel that finds its timer waiting is not for one of the batch. -/
theorem During.cancelFound (h : During s now tr u) {id : TimerID} {tm : Timer} {q : TimerQueue}
    (hlive : u.queue.heap id.timer = some tm) (hout : id.timer ∉ u.out)
    (hseq : tm.sequence = id.sequence)
    (hheap : q.heap = Function.update u.queue.heap id.timer none)
    (hcancel : q.cancelingTimers = u.queue.cancelingTimers) :
    During s now (tr ++ [.cancel id]) { u with queue := q } := by
  have hne : ∀ e ∈ s.queue.due now, e.timer ≠ id.timer := by
    intro e he heq
    rw [h.out, ← heq] at hout
    exact hout (List.mem_map_of_mem he)
  refine ⟨h.batch, ?_, ?_, ?_⟩
  · intro e he
    refine ((congrFun hheap _).trans ?_).trans (h.held e he)
    exact TimerQueue.heap_update_of_ne (hne e he)
  · intro e he n
    change _ ∈ q.cancelingTimers ↔ _
    rw [hcancel, h.cancelled e he n, List.mem_append, List.mem_singleton]
    refine ⟨Or.inl, ?_⟩
    rintro (hmem | heq)
    · exact hmem
    · cases heq
      exact absurd rfl (hne e he)
  · intro a w hw hno
    rw [List.mem_append, List.mem_singleton]
    rcases h.later a w hw hno with hsame | hmem
    · by_cases haid : a = id.timer
      · subst haid
        have hwt : w = tm := Option.some.inj (hsame.symm.trans hlive)
        subst hwt
        exact Or.inr (Or.inr (by rw [hseq]))
      · exact Or.inl (((congrFun hheap a).trans (TimerQueue.heap_update_of_ne haid)).trans hsame)
    · exact Or.inr (Or.inl hmem)

theorem During.cancelUnknown (h : During s now tr u) {id : TimerID} {q : TimerQueue}
    (hheap : q.heap = u.queue.heap)
    (hcancel : ∀ x, u.batch ≠ none → (x ∈ q.cancelingTimers ↔
      x = ActiveTimer.mk id.timer id.sequence ∨ x ∈ u.queue.cancelingTimers)) :
    During s now (tr ++ [.cancel id]) { u with queue := q } := by
  have hsome : u.batch ≠ none := by
    obtain ⟨ran, todo, hbatch, _⟩ := h.batch
    rw [hbatch]
    nofun
  refine ⟨h.batch, fun e he => (congrFun hheap _).trans (h.held e he), ?_, ?_⟩
  · intro e he n
    change _ ∈ q.cancelingTimers ↔ _
    rw [hcancel _ hsome, h.cancelled e he n, List.mem_append, List.mem_singleton, or_comm]
    refine or_congr_right ?_
    constructor
    · intro heq
      have ht : e.timer = id.timer := congrArg ActiveTimer.timer heq
      have hn : n = id.sequence := congrArg ActiveTimer.sequence heq
      rw [ht, hn]
    · intro heq
      cases heq
      rfl
  · intro a w hw hno
    rw [List.mem_append]
    rcases h.later a w hw hno with hsame | hmem
    · exact Or.inl ((congrFun hheap a).trans hsame)
    · exact Or.inr (Or.inl hmem)

theorem During.addTimer (h : During s now tr u) (hs : Sound u) {a : Nat} {tm : Timer}
    {clock : Timestamp} {q : TimerQueue} (hfree : u.queue.heap a = none)
    (hheap : q.heap = Function.update u.queue.heap a (some tm))
    (hcancel : q.cancelingTimers = u.queue.cancelingTimers) :
    During s now (tr ++ [.addTimer a tm clock])
      { u with queue := q, created := u.created ++ [tm] } := by
  have hkeep : ∀ b w, u.queue.heap b = some w → q.heap b = some w := by
    intro b w hw
    rw [hheap]
    refine (TimerQueue.heap_update_of_ne ?_).trans hw
    rintro rfl
    rw [hfree] at hw
    cases hw
  refine ⟨h.batch, ?_, ?_, ?_⟩
  · intro e he
    obtain ⟨w, hw⟩ := hs.rep.live e.timer (by rw [h.out]; exact List.mem_map_of_mem he)
    rw [← h.held e he, hw]
    exact hkeep _ _ hw
  · intro e he n
    change _ ∈ q.cancelingTimers ↔ _
    rw [hcancel, h.cancelled e he n, List.mem_append, List.mem_singleton]
    exact ⟨Or.inl, fun hor => hor.resolve_right nofun⟩
  · intro b w hw hno
    rw [List.mem_append]
    rcases h.later b w hw hno with hsame | hmem
    · exact Or.inl (hkeep b w hsame)
    · exact Or.inr (Or.inl hmem)

theorem During.runNext (h : During s now tr u) {ran todo : List Entry} {e : Entry} {tm : Timer}
    {n : Timestamp} (hbatch : u.batch = some ⟨n, ran, e :: todo⟩)
    (hlive : u.queue.heap e.timer = some tm) :
    During s now (tr ++ [.runNext]) { u with
      batch := some ⟨n, ran ++ [e], todo⟩, fired := u.fired ++ [⟨tm.sequence, n⟩] } := by
  obtain ⟨ran', todo', hbatch', hdue, hfired⟩ := h.batch
  rw [hbatch] at hbatch'
  cases hbatch'
  have he : e ∈ s.queue.due now := by
    rw [← hdue]
    exact List.mem_append_right _ List.mem_cons_self
  have hmem : ∀ id, .cancel id ∈ tr ++ [TimerStep.runNext] ↔ TimerStep.cancel id ∈ tr := by
    intro id
    rw [List.mem_append, List.mem_singleton]
    exact ⟨fun hor => hor.resolve_right nofun, Or.inl⟩
  refine ⟨⟨ran ++ [e], todo, rfl, ?_, ?_⟩, h.held, ?_, ?_⟩
  · rw [List.append_assoc]
    exact hdue
  · change u.fired ++ [⟨tm.sequence, now⟩] = _
    rw [hfired, List.map_append, List.append_assoc]
    have hself : s.firing now e = ⟨tm.sequence, now⟩ := by
      rw [firing, ← h.held e he, hlive]
      rfl
    rw [List.map_singleton, hself]
  · intro f hf m
    rw [hmem]
    exact h.cancelled f hf m
  · intro a w hw hno
    rw [hmem]
    exact h.later a w hw hno

theorem During.step (h : During s now tr u) (hs : Sound u) {l : TimerStep}
    (hl : l.inBatch = true) (heff : Effect u l v) : During s now (tr ++ [l]) v := by
  cases heff with
  | addTimer hfree _ hheap _ hcancel => exact h.addTimer hs hfree hheap hcancel
  | cancelFound hlive hout hseq hheap _ hcancel => exact h.cancelFound hlive hout hseq hheap hcancel
  | cancelUnknown hheap _ hcancel => exact h.cancelUnknown hheap hcancel
  | beginRead _ _ _ _ => cases hl
  | runNext hbatch hlive => exact h.runNext hbatch hlive
  | endRead _ _ => cases hl

theorem run_during (hrun : system.Run t tr u) (hin : ∀ l ∈ tr, l.inBatch = true) (hs : Sound t)
    (h : During s now [] t) : During s now tr u ∧ Sound u := by
  induction hrun with
  | nil => exact ⟨h, hs⟩
  | snoc hrun hstep ih =>
    obtain ⟨hd, hsu⟩ := ih fun l hl => hin l (List.mem_append_left _ hl)
    obtain ⟨heff, hsv⟩ := step_spec hsu hstep
    exact ⟨hd.step hsu (hin _ (List.mem_append_right _ (List.mem_singleton_self _))) heff, hsv⟩

/-- What one `handle_read` does, whatever its callbacks add and cancel. -/
structure FiresDue (s : TimerState) (now : Timestamp) (tr : List TimerStep) (t : TimerState) :
    Prop where
  /-- Every timer that is due, in the order of expiration, and nothing else. -/
  fired : t.fired = s.fired ++ (s.queue.due now).map (s.firing now)
  later : ∀ e ∈ s.queue.timers, now < e.when →
    (e ∈ t.queue.timers ∧ t.queue.heap e.timer = s.queue.heap e.timer) ∨
      ∃ n, .cancel ⟨e.timer, n⟩ ∈ tr ∧ ActiveTimer.mk e.timer n ∈ s.queue.activeTimers
  repeated : ∀ e ∈ s.queue.due now, ∀ tm, s.queue.heap e.timer = some tm →
    tm.repeats = true → .cancel ⟨e.timer, tm.sequence⟩ ∉ tr →
      t.queue.heap e.timer = some { tm with expiration := now + tm.interval } ∧
        Entry.mk (now + tm.interval) e.timer ∈ t.queue.timers
  dropped : ∀ e ∈ s.queue.due now, ∀ tm, s.queue.heap e.timer = some tm →
    (tm.repeats = false ∨ .cancel ⟨e.timer, tm.sequence⟩ ∈ tr) → t.queue.heap e.timer = none

theorem During.finish (h : During s now tr u) (hs : Sound s) (hidle : s.batch = none)
    {clock : Timestamp} (heff : Effect u (.endRead clock) t) (ht : Sound t) :
    FiresDue s now tr t := by
  have hrep : s.queue.Rep [] := by
    have hout : s.out = [] := by rw [TimerState.out, hidle]
    rw [← hout]
    exact hs.rep
  obtain ⟨ran, todo, hbatch, hdue, hfired⟩ := h.batch
  cases heff with
  | @endRead clock n ran' q hbatch' hheap =>
    rw [hbatch] at hbatch'
    cases hbatch'
    rw [List.append_nil] at hdue
    subst hdue
    have hrep' : q.Rep [] := ht.rep
    have hafter : ∀ e ∈ s.queue.due now, ∀ tm, s.queue.heap e.timer = some tm →
        q.heap e.timer = if u.queue.Kept e.timer tm then some (tm.restart now) else none := by
      intro e he tm htm
      rw [hheap, TimerQueue.heapAfter, if_pos (List.mem_map_of_mem he), h.held e he, htm]
      rfl
    refine ⟨hfired, ?_, ?_, ?_⟩
    · intro e he hlate
      obtain ⟨tm, htm, _, hw⟩ := (hrep.timers e).mp he
      have hno : e.timer ∉ (s.queue.due now).map Entry.timer := by
        intro hmem
        obtain ⟨f, hf, hfe⟩ := List.mem_map.mp hmem
        obtain ⟨w, hwf, _, hwhen⟩ := (hrep.timers f).mp ((TimerQueue.mem_due hrep).mp hf).1
        rw [hfe, htm] at hwf
        cases hwf
        have hle := ((TimerQueue.mem_due hrep).mp hf).2
        rw [← hwhen, hw] at hle
        exact absurd hlate (not_lt.mpr hle)
      rcases h.later e.timer tm htm hno with hsame | hcancel
      · have hq : q.heap e.timer = some tm := by
          rw [hheap, TimerQueue.heapAfter, if_neg hno, hsame]
        exact Or.inl ⟨(hrep'.timers e).mpr ⟨tm, hq, List.not_mem_nil, hw⟩, hq.trans htm.symm⟩
      · exact Or.inr ⟨_, hcancel, (hrep.active _).mpr ⟨tm, htm, List.not_mem_nil, rfl⟩⟩
    · intro e he tm htm hrepeat hcancel
      have hkept : u.queue.Kept e.timer tm :=
        ⟨hrepeat, fun hmem => hcancel ((h.cancelled e he _).mp hmem)⟩
      have hq := hafter e he tm htm
      rw [if_pos hkept, Timer.restart, if_pos hrepeat] at hq
      exact ⟨hq, (hrep'.timers _).mpr ⟨_, hq, List.not_mem_nil, rfl⟩⟩
    · intro e he tm htm hdrop
      refine (hafter e he tm htm).trans (if_neg ?_)
      rintro ⟨hrepeat, hno⟩
      rcases hdrop with hone | hcancel
      · rw [hone] at hrepeat
        cases hrepeat
      · exact hno ((h.cancelled e he _).mpr hcancel)

-- ════════════════════════════════════════════════════════════════════════
-- One-shot timers over a whole run
-- ════════════════════════════════════════════════════════════════════════

/-- The addresses whose callbacks the running batch has started. -/
def ranOut (s : TimerState) : List Nat :=
  match s.batch with
  | none => []
  | some b => b.ran.map Entry.timer

structure OneShot (s : TimerState) : Prop where
  distinct : (s.created.map Timer.sequence).Nodup
  /-- Only `restart` changes a timer, and only a repeating one. -/
  origin : ∀ a t, s.queue.heap a = some t → ∃ u ∈ s.created, u.sequence = t.sequence ∧
    u.repeats = t.repeats ∧ (t.repeats = false → u = t)
  known : ∀ f ∈ s.fired, f.sequence ∈ s.created.map Timer.sequence
  once : ∀ u ∈ s.created, u.repeats = false →
    s.fired.countP (·.sequence = u.sequence) ≤ 1 ∧
      ∀ f ∈ s.fired, f.sequence = u.sequence → u.expiration ≤ f.now
  fresh : ∀ a t, s.queue.heap a = some t → t.repeats = false → a ∉ s.ranOut →
    ∀ f ∈ s.fired, f.sequence ≠ t.sequence
  due : ∀ b, s.batch = some b → ∀ e ∈ b.todo, ∀ t, s.queue.heap e.timer = some t →
    t.expiration ≤ b.now

theorem eq_of_sequence {l : List Timer} (h : (l.map Timer.sequence).Nodup) {x y : Timer}
    (hx : x ∈ l) (hy : y ∈ l) (heq : x.sequence = y.sequence) : x = y :=
  List.inj_on_of_nodup_map h hx hy heq

/-- Steps that only take timers away. -/
theorem OneShot.shrink (h : OneShot s) {q : TimerQueue}
    (hheap : ∀ a t, q.heap a = some t → s.queue.heap a = some t) :
    OneShot { s with queue := q } where
  distinct := h.distinct
  origin a t ht := h.origin a t (hheap a t ht)
  known := h.known
  once := h.once
  fresh a t ht := h.fresh a t (hheap a t ht)
  due b hb e he t ht := h.due b hb e he t (hheap e.timer t ht)

theorem OneShot.addTimer (h : OneShot s) (hs : Sound s) {a : Nat} {tm : Timer} {q : TimerQueue}
    (hfree : s.queue.heap a = none) (hnew : tm.sequence ∉ s.created.map Timer.sequence)
    (hheap : q.heap = Function.update s.queue.heap a (some tm)) :
    OneShot { s with queue := q, created := s.created ++ [tm] } := by
  have hcases : ∀ b t, q.heap b = some t → b = a ∧ t = tm ∨ s.queue.heap b = some t := by
    intro b t ht
    rw [hheap] at ht
    by_cases hba : b = a
    · subst hba
      rw [Function.update_self] at ht
      exact Or.inl ⟨rfl, (Option.some.inj ht).symm⟩
    · exact Or.inr ((Function.update_of_ne hba _ _).symm.trans ht)
  have hunfired : ∀ f ∈ s.fired, f.sequence ≠ tm.sequence :=
    fun f hf heq => hnew (heq ▸ h.known f hf)
  refine ⟨?_, ?_, ?_, ?_, ?_, ?_⟩
  · rw [List.map_append, List.map_singleton]
    refine List.nodup_append.mpr ⟨h.distinct, List.nodup_singleton _, ?_⟩
    intro n hn m hm
    rw [List.mem_singleton] at hm
    subst hm
    rintro rfl
    exact hnew hn
  · intro b t ht
    rcases hcases b t ht with ⟨_, rfl⟩ | ht
    · exact ⟨t, List.mem_append_right _ (List.mem_singleton_self _), rfl, rfl, fun _ => rfl⟩
    · obtain ⟨u, hu, hrest⟩ := h.origin b t ht
      exact ⟨u, List.mem_append_left _ hu, hrest⟩
  · intro f hf
    rw [List.map_append]
    exact List.mem_append_left _ (h.known f hf)
  · intro u hu hone
    rcases List.mem_append.mp hu with hu | hu
    · exact h.once u hu hone
    · rw [List.mem_singleton] at hu
      subst hu
      refine ⟨?_, fun f hf heq => absurd heq (hunfired f hf)⟩
      have hzero : s.fired.countP (·.sequence = u.sequence) = 0 := by
        rw [List.countP_eq_zero]
        intro f hf
        simpa using hunfired f hf
      exact hzero ▸ Nat.zero_le 1
  · intro b t ht hone hran f hf
    rcases hcases b t ht with ⟨_, rfl⟩ | ht
    · exact hunfired f hf
    · exact h.fresh b t ht hone hran f hf
  · intro b hb e he t ht
    rcases hcases e.timer t ht with ⟨hea, _⟩ | ht
    · -- the batch's addresses are in use
      have hout : e.timer ∈ s.out := by
        have hb' : s.batch = some b := hb
        rw [TimerState.out, hb']
        exact List.mem_map_of_mem (List.mem_append_right _ he)
      obtain ⟨w, hw⟩ := hs.rep.live e.timer hout
      rw [hea, hfree] at hw
      cases hw
    · exact h.due b hb e he t ht

theorem OneShot.beginRead (h : OneShot s) (hs : Sound s) {now : Timestamp} {q : TimerQueue}
    (hidle : s.batch = none) (hheap : q.heap = s.queue.heap) :
    OneShot { s with queue := q, batch := some ⟨now, [], s.queue.due now⟩ } := by
  have hq : OneShot { s with queue := q } := h.shrink fun a t ht => by rw [← hheap]; exact ht
  have hran : s.ranOut = [] := by rw [ranOut, hidle]
  refine ⟨h.distinct, hq.origin, h.known, h.once, ?_, ?_⟩
  · intro a t ht hone _
    exact hq.fresh a t ht hone (by
      change a ∉ s.ranOut
      rw [hran]
      exact List.not_mem_nil)
  · intro b hb e he t ht
    cases hb
    have hmem := (TimerQueue.mem_due hs.rep).mp he
    obtain ⟨u, hu, _, hw⟩ := (hs.rep.timers e).mp hmem.1
    have ht' : s.queue.heap e.timer = some t := by
      rw [← hheap]
      exact ht
    rw [hu] at ht'
    cases ht'
    rw [hw]
    exact hmem.2

theorem OneShot.runNext (h : OneShot s) (hs : Sound s) {now : Timestamp} {ran todo : List Entry}
    {e : Entry} {tm : Timer} (hbatch : s.batch = some ⟨now, ran, e :: todo⟩)
    (hlive : s.queue.heap e.timer = some tm) :
    OneShot { s with
      batch := some ⟨now, ran ++ [e], todo⟩, fired := s.fired ++ [⟨tm.sequence, now⟩] } := by
  have hran : s.ranOut = ran.map Entry.timer := by rw [ranOut, hbatch]
  have hnot : e.timer ∉ s.ranOut := by
    have hnodup := hs.rep.nodup
    have hout : s.out = (ran ++ e :: todo).map Entry.timer := by
      rw [TimerState.out, hbatch]
      rfl
    rw [hout, List.map_append, List.map_cons] at hnodup
    rw [hran]
    intro hmem
    exact (List.nodup_append.mp hnodup).2.2 _ hmem _ List.mem_cons_self rfl
  obtain ⟨w, hw, hwseq, hwrep, hweq⟩ := h.origin e.timer tm hlive
  refine ⟨h.distinct, h.origin, ?_, ?_, ?_, ?_⟩
  · intro f hf
    rcases List.mem_append.mp hf with hf | hf
    · exact h.known f hf
    · rw [List.mem_singleton] at hf
      subst hf
      exact hwseq ▸ List.mem_map_of_mem hw
  · intro u hu hone
    obtain ⟨hcount, hlate⟩ := h.once u hu hone
    by_cases heq : tm.sequence = u.sequence
    · -- the timer that runs is `u` itself, for the first time
      have huw : w = u := eq_of_sequence h.distinct hw hu (hwseq.trans heq)
      subst huw
      have htm : tm.repeats = false := hwrep ▸ hone
      have huntil := h.fresh e.timer tm hlive htm hnot
      have hdue := h.due _ hbatch e List.mem_cons_self tm hlive
      have hzero : s.fired.countP (·.sequence = w.sequence) = 0 := by
        rw [List.countP_eq_zero]
        intro f hf
        simpa [hwseq] using huntil f hf
      refine ⟨?_, ?_⟩
      · rw [List.countP_append, hzero, Nat.zero_add]
        exact List.countP_le_length
      · intro f hf hfseq
        rcases List.mem_append.mp hf with hf | hf
        · exact hlate f hf hfseq
        · rw [List.mem_singleton] at hf
          subst hf
          rw [hweq htm]
          exact hdue
    · refine ⟨?_, ?_⟩
      · rw [List.countP_append]
        simpa [heq] using hcount
      · intro f hf hfseq
        rcases List.mem_append.mp hf with hf | hf
        · exact hlate f hf hfseq
        · rw [List.mem_singleton] at hf
          subst hf
          exact absurd hfseq heq
  · intro a t ht hone hnran f hf
    have hnran' : a ∉ (ran ++ [e]).map Entry.timer := hnran
    rw [List.map_append, List.mem_append, not_or, ← hran] at hnran'
    rcases List.mem_append.mp hf with hf | hf
    · exact h.fresh a t ht hone hnran'.1 f hf
    · rw [List.mem_singleton] at hf
      subst hf
      intro hseq
      have hea := hs.ledger.unique e.timer a tm t hlive ht hseq
      exact hnran'.2 (hea ▸ List.mem_singleton_self _)
  · intro b hb f hf t ht
    cases hb
    exact h.due _ hbatch f (List.mem_cons_of_mem e hf) t ht

theorem OneShot.endRead (h : OneShot s) {now : Timestamp} {ran : List Entry} {q : TimerQueue}
    (hbatch : s.batch = some ⟨now, ran, []⟩)
    (hheap : q.heap = s.queue.heapAfter now (ran.map Entry.timer)) :
    OneShot { s with queue := q, batch := none } := by
  -- what is left is unchanged and was not run, or is a repeating timer restarted
  have hcases : ∀ a t, q.heap a = some t →
      (a ∉ s.ranOut ∧ s.queue.heap a = some t) ∨
        t.repeats = true ∧ ∃ w, s.queue.heap a = some w ∧ t = w.restart now := by
    intro a t ht
    have hran : s.ranOut = ran.map Entry.timer := by rw [ranOut, hbatch]
    rw [hheap, TimerQueue.heapAfter, ← hran] at ht
    by_cases hmem : a ∈ s.ranOut
    · rw [if_pos hmem, Option.bind_eq_some_iff] at ht
      obtain ⟨w, hw, hkeep⟩ := ht
      by_cases hk : s.queue.Kept a w
      · rw [if_pos hk] at hkeep
        have htw := (Option.some.inj hkeep).symm
        exact Or.inr ⟨htw ▸ hk.1, w, hw, htw⟩
      · rw [if_neg hk] at hkeep
        cases hkeep
    · rw [if_neg hmem] at ht
      exact Or.inl ⟨hmem, ht⟩
  refine ⟨h.distinct, ?_, h.known, h.once, ?_, fun b hb => absurd hb.symm (Option.some_ne_none b)⟩
  · intro a t ht
    rcases hcases a t ht with ⟨_, hold⟩ | ⟨hrep, w, hw, rfl⟩
    · exact h.origin a t hold
    · obtain ⟨u, hu, hseq, hur, _⟩ := h.origin a w hw
      refine ⟨u, hu, hseq, hur, fun hone => ?_⟩
      rw [hrep] at hone
      cases hone
  · intro a t ht hone _
    rcases hcases a t ht with ⟨hno, hold⟩ | ⟨hrep, _⟩
    · exact h.fresh a t hold hone hno
    · rw [hrep] at hone
      cases hone

theorem OneShot.step (h : OneShot s) (hs : Sound s) {l : TimerStep} (heff : Effect s l t) :
    OneShot t := by
  cases heff with
  | addTimer hfree hnew hheap _ _ => exact h.addTimer hs hfree hnew hheap
  | cancelFound _ _ _ hheap _ _ =>
    refine h.shrink fun a t ht => ?_
    rw [hheap] at ht
    exact (TimerQueue.heap_remove_eq_some.mp ht).2
  | cancelUnknown hheap _ _ => exact h.shrink fun a t ht => by rw [← hheap]; exact ht
  | beginRead hidle hheap _ _ => exact h.beginRead hs hidle hheap
  | runNext hbatch hlive => exact h.runNext hs hbatch hlive
  | endRead hbatch hheap => exact h.endRead hbatch hheap

theorem reachable_oneShot (h : system.Reachable s) : OneShot s := by
  have hboth : OneShot s ∧ Sound s := by
    refine h.invariant (I := fun s => OneShot s ∧ Sound s) ?_ ?_
    · rintro _ rfl
      exact ⟨⟨List.nodup_nil, nofun, nofun, nofun, nofun, nofun⟩, new_sound⟩
    · rintro s l t ⟨hone, hs⟩ hstep
      obtain ⟨heff, ht⟩ := step_spec hs hstep
      exact ⟨hone.step hs heff, ht⟩
  exact hboth.1

/-- **Timers fire exactly when due.** In a reachable state every one-shot timer
    has run at most once and not before its expiration, and the timers that are in
    no batch are in `timers_` under their expirations. The next `handle_read`
    takes the entries with an expiration of at most `now`, in non-decreasing
    order, and does to them and to the others what `FiresDue` says. -/
theorem timers_fire_when_due (h : system.Reachable s) :
    (∀ u ∈ s.created, u.repeats = false →
      s.fired.countP (·.sequence = u.sequence) ≤ 1 ∧
        ∀ f ∈ s.fired, f.sequence = u.sequence → u.expiration ≤ f.now) ∧
      (∀ e, e ∈ s.queue.timers ↔
        ∃ u, s.queue.heap e.timer = some u ∧ e.timer ∉ s.out ∧ u.expiration = e.when) ∧
      ∀ now clock tr t, (∀ l ∈ tr, l.inBatch = true) →
        system.Run s (.beginRead now :: tr ++ [.endRead clock]) t →
          (∀ e, e ∈ s.queue.due now ↔ e ∈ s.queue.timers ∧ e.when ≤ now) ∧
          (s.queue.due now).Pairwise (fun e f => e.when ≤ f.when) ∧
          ((s.queue.due now).map Entry.timer).Nodup ∧
          FiresDue s now tr t := by
  have hs := reachable_sound h
  refine ⟨(reachable_oneShot h).once, hs.rep.timers, ?_⟩
  intro now clock tr t hin hrun
  obtain ⟨u, hu, hend⟩ := hrun.of_concat
  obtain ⟨s₁, hbegin, hmid⟩ := hu.of_cons
  obtain ⟨heff, hs₁⟩ := step_spec hs hbegin
  obtain ⟨hduring, hsu⟩ := run_during hmid hin hs₁ (.begin heff)
  obtain ⟨heff', ht⟩ := step_spec hsu hend
  exact ⟨fun e => TimerQueue.mem_due hs.rep, s.queue.due_ordered now,
    TimerQueue.due_timer_nodup hs.rep now, hduring.finish hs hbegin.1 heff' ht⟩

theorem timers_fire_when_due_tie :
    ∃ s t : TimerState, system.Reachable s ∧
      system.Run s [.beginRead 5, .runNext, .runNext, .endRead 6] t ∧
      t.fired = [⟨0, 5⟩, ⟨1, 5⟩] ∧ FiresDue s 5 [.runNext, .runNext] t := by
  -- a one-shot and a repeating timer, both due at the very moment of the reading
  have hval : (new.after ([.addTimer 8 ⟨5, 0, false, 0⟩ 1, .addTimer 16 ⟨5, 10, true, 1⟩ 1] ++
      [.beginRead 5, .runNext, .runNext, .endRead 6])).map TimerState.fired =
        some [⟨0, 5⟩, ⟨1, 5⟩] := by
    decide
  obtain ⟨t, ht, hfired⟩ := Option.map_eq_some_iff.mp hval
  obtain ⟨s, hs, hbatch⟩ := (run_of_after ht).of_append
  have hin : ∀ l ∈ [TimerStep.runNext, .runNext], l.inBatch = true := by decide
  have hreach : system.Reachable s := ⟨_, _, rfl, hs⟩
  exact ⟨s, t, hreach, hbatch, hfired,
    ((timers_fire_when_due hreach).2.2 5 6 _ t hin hbatch).2.2.2⟩

end TimerState

end DamnWebServer
