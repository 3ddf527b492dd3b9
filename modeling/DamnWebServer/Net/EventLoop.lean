import DamnWebServer.Lib.Transition

/-!
# The event loop and its functor queue

`Event_Loop` (`net/event_loop.cpp`) under any interleaving of its own thread
with any number of foreign threads. A step is one access to the shared state:
the push under `mutex_`, the write to the eventfd, the store to `quit_`, the
swap. What handlers, timer callbacks and functors do is left open but for the
calls they make on the loop.

The members `pending_functions_`, `functors` and the eventfd are modelled as
they are; `pushed`, `executed`, `ranHere`, `loopCalls`, `entered`, `earlyQuit` and
`early` only record what has happened.
-/

namespace DamnWebServer

/-- Where the loop's own thread is. -/
inductive LoopPc where
  /-- Before or after `loop()`: code that owns the loop object runs. -/
  | outside
  /-- `looping_` is set, `quit_ = false` comes next. -/
  | starting
  | whileTest
  | polling
  | dispatching
  /-- Inside the handler of some channel. -/
  | handling
  /-- `calling_pending_functors_` is set, the swap comes next. -/
  | swapping
  | functors
  | inFunctor
  | leaving
  deriving DecidableEq, Repr

/-- A foreign thread: between two calls, or before the `wakeup()` of one. -/
inductive ForeignPc where
  | idle | pushed | quitStored
  deriving DecidableEq, Repr

/-- An entry of `active_channels_`. -/
inductive ActiveChannel where
  | wakeupChannel | other
  deriving DecidableEq, Repr

inductive LoopCall (φ : Type) where
  | queueInLoop (f : φ)
  | runInLoop (f : φ)
  | quit
  deriving DecidableEq, Repr

inductive LoopStep (φ : Type) where
  | loop
  | clearQuit
  | whileTest
  | poll (active : List ActiveChannel)
  | dispatch
  | handlerReturn
  | setCalling
  | swap
  | startFunctor
  | functorReturn
  | clearCalling
  | leave
  /-- A call made by the loop's own thread. -/
  | own (c : LoopCall φ)
  /-- Its `if (... || calling_pending_functors_) wakeup()`. -/
  | ownWakeup
  | foreign (t : Nat) (c : LoopCall φ)
  | foreignWakeup (t : Nat)
  deriving DecidableEq, Repr

/-- The functor a step pushes. -/
def LoopStep.pushes {φ : Type} : LoopStep φ → Option φ
  | .own (.queueInLoop f) | .foreign _ (.queueInLoop f) | .foreign _ (.runInLoop f) => some f
  | _ => none

/-- The step calls the next functor of the batch. -/
def LoopStep.starts {φ : Type} : LoopStep φ → Bool
  | .startFunctor => true
  | _ => false

structure LoopState (φ : Type) where
  pc : LoopPc := .outside
  looping : Bool := false
  quit : Bool := false
  calling : Bool := false
  pending : List φ := []
  /-- The rest of the local `functors`. -/
  batch : List φ := []
  /-- The rest of `active_channels_`. -/
  active : List ActiveChannel := []
  eventfd : Nat := 0
  /-- The own thread is between its push and its test. -/
  ownBusy : Bool := false
  foreign : Nat → ForeignPc := fun _ => .idle
  pushed : List φ := []
  executed : List φ := []
  /-- Functors run at once by `run_in_loop`. -/
  ranHere : List φ := []
  loopCalls : Nat := 0
  /-- The `while` has been entered. -/
  entered : Bool := false
  /-- A `quit()` was made before that. -/
  earlyQuit : Bool := false
  /-- Pushes made before that. -/
  early : Nat := 0

namespace LoopState

variable {φ : Type} {s t : LoopState φ}

-- ════════════════════════════════════════════════════════════════════════
-- The steps
-- ════════════════════════════════════════════════════════════════════════

/-- `pending_functions_.emplace_back(f)`. -/
def push (s : LoopState φ) (f : φ) : LoopState φ :=
  { s with
    pending := s.pending ++ [f]
    pushed := s.pushed ++ [f]
    early := if s.entered then s.early else s.early + 1 }

/-- `quit_ = true`. -/
def storeQuit (s : LoopState φ) : LoopState φ :=
  { s with quit := true, earlyQuit := s.earlyQuit || !s.entered }

/-- `wakeup()`: the eventfd is non-blocking and refuses to pass `2^64 - 2`. -/
def wakeup (s : LoopState φ) : LoopState φ :=
  { s with eventfd := if s.eventfd < 2 ^ 64 - 2 then s.eventfd + 1 else s.eventfd }

/-- `Event_Loop::handle_read`. -/
def handleRead (s : LoopState φ) : LoopState φ := { s with eventfd := 0 }

def setForeign (s : LoopState φ) (t : Nat) (pc : ForeignPc) : LoopState φ :=
  { s with foreign := Function.update s.foreign t pc }

/-- The first step of a call by the loop's own thread. `run_in_loop(f)` runs
    `f` on the spot, and the calls `f` makes are further calls of this thread. -/
def ownCall (s : LoopState φ) : LoopCall φ → LoopState φ
  | .queueInLoop f => { s.push f with ownBusy := true }
  | .runInLoop f => { s with ranHere := s.ranHere ++ [f] }
  | .quit => s.storeQuit

/-- The first step of a call by another thread. -/
def foreignCall (s : LoopState φ) (t : Nat) : LoopCall φ → LoopState φ
  | .queueInLoop f | .runInLoop f => (s.push f).setForeign t .pushed
  | .quit => s.storeQuit.setForeign t .quitStored

/-- Code that may call into the loop is running on its own thread. -/
def OwnCode (s : LoopState φ) : Prop :=
  (s.pc = .outside ∨ s.pc = .handling ∨ s.pc = .inFunctor) ∧ s.ownBusy = false

def Enabled (s : LoopState φ) : LoopStep φ → Prop
  | .loop => s.pc = .outside ∧ s.ownBusy = false ∧ s.looping = false
  | .clearQuit => s.pc = .starting
  | .whileTest => s.pc = .whileTest
  -- level-triggered, and bounded by the size of `events_`: some of what is ready
  | .poll active => s.pc = .polling ∧ (.wakeupChannel ∈ active → 0 < s.eventfd)
  | .dispatch => s.pc = .dispatching ∧ s.active ≠ []
  | .handlerReturn => s.pc = .handling ∧ s.ownBusy = false
  | .setCalling => s.pc = .dispatching ∧ s.active = []
  | .swap => s.pc = .swapping
  | .startFunctor => s.pc = .functors ∧ s.batch ≠ []
  | .functorReturn => s.pc = .inFunctor ∧ s.ownBusy = false
  | .clearCalling => s.pc = .functors ∧ s.batch = []
  | .leave => s.pc = .leaving
  | .own _ => s.OwnCode
  | .ownWakeup => s.ownBusy = true
  | .foreign t _ => s.foreign t = .idle
  | .foreignWakeup t => s.foreign t ≠ .idle

def perform (s : LoopState φ) : LoopStep φ → LoopState φ
  | .loop => { s with pc := .starting, looping := true, loopCalls := s.loopCalls + 1 }
  | .clearQuit => { s with pc := .whileTest, quit := false }
  | .whileTest => { s with pc := if s.quit then .leaving else .polling, entered := true }
  | .poll active => { s with pc := .dispatching, active := active }
  | .dispatch =>
    match s.active with
    | [] => s
    | .wakeupChannel :: rest => { s.handleRead with active := rest }
    | .other :: rest => { s with pc := .handling, active := rest }
  | .handlerReturn => { s with pc := .dispatching }
  | .setCalling => { s with pc := .swapping, calling := true }
  | .swap => { s with pc := .functors, batch := s.pending, pending := [] }
  | .startFunctor =>
    match s.batch with
    | [] => s
    | f :: rest => { s with pc := .inFunctor, batch := rest, executed := s.executed ++ [f] }
  | .functorReturn => { s with pc := .functors }
  | .clearCalling => { s with pc := .whileTest, calling := false }
  | .leave => { s with pc := .outside, looping := false }
  | .own c => s.ownCall c
  | .ownWakeup => { (if s.calling then s.wakeup else s) with ownBusy := false }
  | .foreign t c => s.foreignCall t c
  | .foreignWakeup t => s.wakeup.setForeign t .idle

instance (s : LoopState φ) : Decidable s.OwnCode := inferInstanceAs (Decidable (_ ∧ _))

instance (s : LoopState φ) (l : LoopStep φ) : Decidable (s.Enabled l) :=
  match l with
  | .loop => inferInstanceAs (Decidable (_ ∧ _))
  | .clearQuit | .whileTest | .swap | .leave => inferInstanceAs (Decidable (s.pc = _))
  | .poll _ => inferInstanceAs (Decidable (_ ∧ (_ → _)))
  | .dispatch | .startFunctor => inferInstanceAs (Decidable (_ ∧ ¬_))
  | .handlerReturn | .functorReturn => inferInstanceAs (Decidable (_ ∧ _))
  | .setCalling | .clearCalling => inferInstanceAs (Decidable (_ ∧ _ = []))
  | .own _ => inferInstanceAs (Decidable s.OwnCode)
  | .ownWakeup => inferInstanceAs (Decidable (_ = _))
  | .foreign t _ => inferInstanceAs (Decidable (s.foreign t = _))
  | .foreignWakeup t => inferInstanceAs (Decidable (¬s.foreign t = _))

/-- From the constructor on. -/
def system (φ : Type) : Transition.System (LoopState φ) (LoopStep φ) :=
  .guarded (· = {}) Enabled perform

-- ════════════════════════════════════════════════════════════════════════
-- Exactly once, in order
-- ════════════════════════════════════════════════════════════════════════

structure QueueInv (s : LoopState φ) : Prop where
  order : s.executed ++ s.batch ++ s.pending = s.pushed
  /-- `functors` is local to `do_pending_functors`. -/
  rest : s.pc ≠ .functors → s.pc ≠ .inFunctor → s.batch = []

theorem QueueInv.push (h : QueueInv s) (f : φ) : QueueInv (s.push f) := by
  refine ⟨?_, h.rest⟩
  change s.executed ++ s.batch ++ (s.pending ++ [f]) = s.pushed ++ [f]
  rw [← List.append_assoc, h.order]

/-- The invariant is about the queue, and about whether the batch is running. -/
theorem QueueInv.frame (h : QueueInv s) (hexec : t.executed = s.executed)
    (hbatch : t.batch = s.batch) (hpend : t.pending = s.pending) (hpush : t.pushed = s.pushed)
    (hrest : t.pc ≠ .functors → t.pc ≠ .inFunctor → s.batch = []) : QueueInv t where
  order := by rw [hexec, hbatch, hpend, hpush, h.order]
  rest := by rw [hbatch]; exact hrest

/-- At the swap the last batch is done. -/
theorem QueueInv.before_swap (h : QueueInv s) (hpc : s.pc = .swapping) :
    s.batch = [] ∧ s.executed ++ s.pending = s.pushed := by
  have hnil : s.batch = [] := h.rest (by rw [hpc]; nofun) (by rw [hpc]; nofun)
  have horder := h.order
  rw [hnil, List.append_nil] at horder
  exact ⟨hnil, horder⟩

theorem QueueInv.swap (h : QueueInv s) (hpc : s.pc = .swapping) : QueueInv (s.perform .swap) := by
  refine ⟨?_, fun hno => absurd rfl hno⟩
  change s.executed ++ s.pending ++ [] = s.pushed
  rw [List.append_nil, (h.before_swap hpc).2]

theorem QueueInv.startFunctor (h : QueueInv s) : QueueInv (s.perform .startFunctor) := by
  simp only [perform]
  cases hb : s.batch with
  | nil => exact h
  | cons f rest =>
    refine ⟨?_, fun _ hno => absurd rfl hno⟩
    change s.executed ++ [f] ++ rest ++ s.pending = s.pushed
    rw [List.append_assoc s.executed, List.singleton_append, ← hb, h.order]

theorem QueueInv.ownCall (h : QueueInv s) (c : LoopCall φ) : QueueInv (s.ownCall c) := by
  cases c with
  | queueInLoop f => exact (h.push f).frame rfl rfl rfl rfl (h.push f).rest
  | runInLoop f => exact h.frame rfl rfl rfl rfl h.rest
  | quit => exact h.frame rfl rfl rfl rfl h.rest

theorem QueueInv.foreignCall (h : QueueInv s) (n : Nat) (c : LoopCall φ) :
    QueueInv (s.foreignCall n c) := by
  cases c with
  | queueInLoop f => exact (h.push f).frame rfl rfl rfl rfl (h.push f).rest
  | runInLoop f => exact (h.push f).frame rfl rfl rfl rfl (h.push f).rest
  | quit => exact h.frame rfl rfl rfl rfl h.rest

theorem QueueInv.step {l : LoopStep φ} (h : QueueInv s) (hl : s.Enabled l) :
    QueueInv (s.perform l) := by
  -- outside `do_pending_functors` there is no batch, so it does not matter where the thread goes
  have hidle : ∀ pc, s.pc = pc → pc ≠ .functors ∧ pc ≠ .inFunctor → s.batch = [] := by
    intro pc hpc hne
    subst hpc
    exact h.rest hne.1 hne.2
  cases l with
  | loop => exact h.frame rfl rfl rfl rfl fun _ _ => hidle _ hl.1 (by decide)
  | clearQuit => exact h.frame rfl rfl rfl rfl fun _ _ => hidle _ hl (by decide)
  | whileTest => exact h.frame rfl rfl rfl rfl fun _ _ => hidle _ hl (by decide)
  | poll active => exact h.frame rfl rfl rfl rfl fun _ _ => hidle _ hl.1 (by decide)
  | dispatch =>
    have hb := hidle _ hl.1 (by decide)
    simp only [perform]
    split
    · exact h
    · exact h.frame rfl rfl rfl rfl fun _ _ => hb
    · exact h.frame rfl rfl rfl rfl fun _ _ => hb
  | handlerReturn => exact h.frame rfl rfl rfl rfl fun _ _ => hidle _ hl.1 (by decide)
  | setCalling => exact h.frame rfl rfl rfl rfl fun _ _ => hidle _ hl.1 (by decide)
  | swap => exact h.swap hl
  | startFunctor => exact h.startFunctor
  | functorReturn => exact h.frame rfl rfl rfl rfl fun hno => absurd rfl hno
  | clearCalling => exact h.frame rfl rfl rfl rfl fun _ _ => hl.2
  | leave => exact h.frame rfl rfl rfl rfl fun _ _ => hidle _ hl (by decide)
  | own c => exact h.ownCall c
  | ownWakeup =>
    simp only [perform]
    split <;> exact h.frame rfl rfl rfl rfl h.rest
  | foreign n c => exact h.foreignCall n c
  | foreignWakeup n => exact h.frame rfl rfl rfl rfl h.rest

theorem reachable_queueInv (h : (system φ).Reachable s) : QueueInv s := by
  refine h.invariant ?_ ?_
  · rintro _ rfl
    exact ⟨rfl, fun _ _ => rfl⟩
  · rintro s l _ hs ⟨hl, rfl⟩
    exact hs.step hl

/-- A step pushes what its label says. -/
theorem perform_pushed (s : LoopState φ) (l : LoopStep φ) :
    (s.perform l).pushed = s.pushed ++ l.pushes.toList := by
  have hsame : s.pushed = s.pushed ++ [] := (List.append_nil _).symm
  cases l with
  | dispatch => simp only [perform]; split <;> exact hsame
  | startFunctor => simp only [perform]; split <;> exact hsame
  | ownWakeup => simp only [perform]; split <;> exact hsame
  | own c => cases c <;> first | exact hsame | rfl
  | foreign n c => cases c <;> first | exact hsame | rfl
  | _ => exact hsame

/-- Only the swap refills the batch; a functor that is started leaves it. -/
theorem perform_batch {l : LoopStep φ} (hl : l ≠ .swap) (s : LoopState φ) :
    (s.perform l).executed ++ (s.perform l).batch = s.executed ++ s.batch := by
  cases l with
  | swap => exact absurd rfl hl
  | startFunctor =>
    simp only [perform]
    split
    · rfl
    · rename_i f rest hb
      rw [hb]
      exact List.append_cons s.executed f rest ▸ rfl
  | dispatch => simp only [perform]; split <;> rfl
  | ownWakeup => simp only [perform]; split <;> rfl
  | own c => cases c <;> rfl
  | foreign n c => cases c <;> rfl
  | _ => rfl

theorem perform_executed {l : LoopStep φ} (hl : s.Enabled l) :
    (s.perform l).executed.length = s.executed.length + [l].countP LoopStep.starts := by
  cases l with
  | startFunctor =>
    simp only [perform]
    split
    · rename_i hb
      exact absurd hb hl.2
    · exact List.length_append
  | dispatch => simp only [perform]; split <;> rfl
  | ownWakeup => simp only [perform]; split <;> rfl
  | own c => cases c <;> rfl
  | foreign n c => cases c <;> rfl
  | _ => rfl

theorem run_pushed {tr : List (LoopStep φ)} (h : (system φ).Run s tr t) :
    t.pushed = s.pushed ++ tr.filterMap LoopStep.pushes := by
  refine h.trace_invariant (I := fun tr t => t.pushed = s.pushed ++ tr.filterMap LoopStep.pushes)
    (List.append_nil _).symm ?_
  rintro tr t l _ ih ⟨_, rfl⟩
  rw [perform_pushed, ih, List.append_assoc, List.filterMap_append]
  cases hl : l.pushes <;> simp [hl]

/-- Between two swaps the functors started are the ones that leave the batch. -/
theorem run_batch {tr : List (LoopStep φ)} (h : (system φ).Run s tr t) (hno : LoopStep.swap ∉ tr) :
    t.executed ++ t.batch = s.executed ++ s.batch ∧
      t.executed.length = s.executed.length + tr.countP LoopStep.starts := by
  induction h with
  | nil => exact ⟨rfl, rfl⟩
  | @snoc tr t _ l hrun hstep ih =>
    obtain ⟨hl, rfl⟩ := hstep
    rw [List.mem_append, not_or, List.mem_singleton] at hno
    obtain ⟨hb, hlen⟩ := ih hno.1
    refine ⟨?_, ?_⟩
    · rw [perform_batch (Ne.symm hno.2), hb]
    · rw [perform_executed hl, hlen, List.countP_append, Nat.add_assoc]

/-- **Exactly once, in order.** What has been executed, what is left of the
    batch and what is pending are together all pushes, in push order. A batch
    holds only what was pushed before its swap: every functor started since the
    swap is one of those pending at it. -/
theorem functors_exactly_once {tr : List (LoopStep φ)} (h : (system φ).Run {} tr s) :
    s.executed ++ s.batch ++ s.pending = tr.filterMap LoopStep.pushes ∧
      ∀ tr₁ tr₂, tr = tr₁ ++ LoopStep.swap :: tr₂ → LoopStep.swap ∉ tr₂ →
        ∃ u, (system φ).Run {} tr₁ u ∧
          s.executed ++ s.batch = tr₁.filterMap LoopStep.pushes ∧
          tr₂.countP LoopStep.starts + s.batch.length = u.pending.length := by
  have hpushed := run_pushed h
  refine ⟨(reachable_queueInv ⟨_, _, rfl, h⟩).order.trans hpushed, ?_⟩
  rintro tr₁ tr₂ rfl hno
  obtain ⟨u, hu, hrest⟩ := h.of_append
  obtain ⟨_, ⟨hpc, rfl⟩, hrun⟩ := hrest.of_cons
  obtain ⟨_, hall⟩ := (reachable_queueInv ⟨_, _, rfl, hu⟩).before_swap hpc
  obtain ⟨hbatch, hlen⟩ := run_batch hrun hno
  have hbatch' : s.executed ++ s.batch = u.executed ++ u.pending := hbatch
  have hlen' : s.executed.length = u.executed.length + tr₂.countP LoopStep.starts := hlen
  refine ⟨u, hu, hbatch'.trans (hall.trans (run_pushed hu)), ?_⟩
  have hcount := congrArg List.length hbatch'
  rw [List.length_append, List.length_append, hlen'] at hcount
  omega

theorem functors_exactly_once_requeue :
    ∃ s : LoopState Nat, (system Nat).Reachable s ∧ s.executed = [1, 2] ∧ s.pending = [1] ∧
      s.executed ++ s.batch ++ s.pending = [1, 2, 1] := by
  -- functor 1 queues itself again while its batch runs
  let tr : List (LoopStep Nat) := [.loop, .clearQuit, .whileTest, .foreign 0 (.queueInLoop 1),
    .foreign 1 (.runInLoop 2), .foreignWakeup 0, .poll [.wakeupChannel], .dispatch, .setCalling,
    .swap, .startFunctor, .own (.queueInLoop 1), .ownWakeup, .functorReturn, .startFunctor]
  have hrun : (system Nat).Run {} tr _ := .of_allowed (by decide)
  exact ⟨_, ⟨_, tr, rfl, hrun⟩, rfl, rfl, (functors_exactly_once hrun).1⟩

end LoopState

end DamnWebServer
