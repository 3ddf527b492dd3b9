import DamnWebServer.Net.EventLoop

/-!
# Wakeups of the event loop

Why the loop does not sleep in `poll` over work that was left for it. A foreign
call ends with a write to the eventfd. A call of the loop's own thread ends with
one only while functors run; otherwise the swap that follows the handlers takes
its functor. Neither holds of a call that the own thread makes before `loop()`,
and `loop()` clears `quit_` when it starts: `Calm` is what a run has to avoid for
the requests made before the `while` to be honoured.
-/

namespace DamnWebServer

namespace LoopState

variable {φ : Type} {s t : LoopState φ}

/-- Some write to the eventfd is there to be read, or is about to be made. -/
def Coming (s : LoopState φ) : Prop := 0 < s.eventfd ∨ ∃ n, s.foreign n ≠ .idle

/-- The same with a thread that has pushed a functor. -/
def Waking (s : LoopState φ) : Prop := 0 < s.eventfd ∨ ∃ n, s.foreign n = .pushed

/-- The thread reaches the swap before it polls again. -/
def SwapAhead (s : LoopState φ) : Prop :=
  s.pc = .dispatching ∨ s.pc = .handling ∨ s.pc = .swapping

theorem not_swapAhead {pc : LoopPc} (hpc : s.pc = pc)
    (hne : pc ≠ .dispatching ∧ pc ≠ .handling ∧ pc ≠ .swapping) : ¬s.SwapAhead := by
  rw [SwapAhead, hpc]
  simp [hne]

theorem wakeup_pos (s : LoopState φ) : 0 < s.wakeup.eventfd := by
  change 0 < if s.eventfd < 2 ^ 64 - 2 then s.eventfd + 1 else s.eventfd
  split <;> omega

/-- A thread that starts a call was idle: those under way stay under way. -/
theorem Waking.setForeign (h : Waking s) {n : Nat} (hidle : s.foreign n = .idle)
    (pc : ForeignPc) : Waking (s.setForeign n pc) := by
  rcases h with hfd | ⟨m, hm⟩
  · exact Or.inl hfd
  · have hne : m ≠ n := by
      rintro rfl
      rw [hidle] at hm
      cases hm
    refine Or.inr ⟨m, ?_⟩
    change Function.update s.foreign n pc m = .pushed
    rw [Function.update_of_ne hne, hm]

theorem Waking.pushed (s : LoopState φ) (n : Nat) : Waking (s.setForeign n .pushed) :=
  Or.inr ⟨n, Function.update_self n _ s.foreign⟩

-- ════════════════════════════════════════════════════════════════════════
-- No lost wakeup
-- ════════════════════════════════════════════════════════════════════════

/-- The own thread queues functors from handlers and functors only. -/
def QueuesWhileLooping (s : LoopState φ) : LoopStep φ → Prop
  | .own (.queueInLoop _) => s.pc ≠ .outside
  | _ => True

instance (s : LoopState φ) (l : LoopStep φ) : Decidable (s.QueuesWhileLooping l) := by
  unfold QueuesWhileLooping
  split <;> infer_instance

structure WakeInv (s : LoopState φ) : Prop where
  calling : s.calling = true ↔ s.pc = .swapping ∨ s.pc = .functors ∨ s.pc = .inFunctor
  busy : s.ownBusy = true → s.pc = .handling ∨ s.pc = .inFunctor
  wake : s.pending ≠ [] → s.Waking ∨ s.SwapAhead ∨ s.ownBusy = true ∧ s.calling = true

/-- Where the thread neither heads for a swap nor is in a call, only the eventfd
    and the other threads are left. -/
theorem WakeInv.waking (h : WakeInv s) (hahead : ¬s.SwapAhead) (hbusy : s.ownBusy = false)
    (hpend : s.pending ≠ []) : s.Waking := by
  rcases h.wake hpend with hw | ha | ⟨hb, _⟩
  · exact hw
  · exact absurd ha hahead
  · rw [hbusy] at hb
    cases hb

/-- A move of the own thread that leaves the queue and the eventfd alone. -/
theorem WakeInv.move (h : WakeInv s) (hbusy : s.ownBusy = false) (hahead : ¬s.SwapAhead)
    (hfd : t.eventfd = s.eventfd) (hforeign : t.foreign = s.foreign)
    (hpend : t.pending = s.pending) (hbusy' : t.ownBusy = s.ownBusy)
    (hcalling : t.calling = true ↔ t.pc = .swapping ∨ t.pc = .functors ∨ t.pc = .inFunctor) :
    WakeInv t := by
  refine ⟨hcalling, ?_, ?_⟩
  · rw [hbusy', hbusy]
    nofun
  · intro hne
    rw [hpend] at hne
    have hw := h.waking hahead hbusy hne
    rw [Waking, ← hfd, ← hforeign] at hw
    exact Or.inl hw

/-- While the thread heads for a swap nothing has to be woken. -/
theorem WakeInv.ahead (hahead : t.SwapAhead) (hbusy : t.ownBusy = true → t.pc = .handling)
    (hcalling : t.calling = true ↔ t.pc = .swapping) : WakeInv t := by
  refine ⟨?_, fun hb => Or.inl (hbusy hb), fun _ => Or.inr (Or.inl hahead)⟩
  rw [hcalling]
  refine ⟨Or.inl, ?_⟩
  rcases hahead with ha | ha | ha <;> simp [ha]

theorem WakeInv.ownCall (h : WakeInv s) {c : LoopCall φ} (hcode : s.OwnCode)
    (hloop : s.QueuesWhileLooping (.own c)) : WakeInv (s.ownCall c) := by
  cases c with
  | runInLoop f => exact ⟨h.calling, h.busy, h.wake⟩
  | quit => exact ⟨h.calling, h.busy, h.wake⟩
  | queueInLoop f =>
    rcases hcode.1 with hpc | hpc | hpc
    · exact absurd hpc hloop
    · exact ⟨h.calling, fun _ => Or.inl hpc, fun _ => Or.inr (Or.inl (Or.inr (Or.inl hpc)))⟩
    · -- a functor is running: the test that follows will write to the eventfd
      have hcall : s.calling = true := h.calling.mpr (Or.inr (Or.inr hpc))
      exact ⟨h.calling, fun _ => Or.inr hpc, fun _ => Or.inr (Or.inr ⟨rfl, hcall⟩)⟩

theorem WakeInv.ownWakeup (h : WakeInv s) : WakeInv (s.perform .ownWakeup) := by
  simp only [perform]
  by_cases hcall : s.calling = true
  · rw [if_pos hcall]
    exact ⟨h.calling, fun hb => absurd hb Bool.false_ne_true,
      fun _ => Or.inl (Or.inl (wakeup_pos s))⟩
  · rw [if_neg hcall]
    refine ⟨h.calling, fun hb => absurd hb Bool.false_ne_true, fun hpend => ?_⟩
    rcases h.wake hpend with hw | ha | hb
    · exact Or.inl hw
    · exact Or.inr (Or.inl ha)
    · exact absurd hb.2 hcall

theorem WakeInv.foreignCall (h : WakeInv s) {n : Nat} (hidle : s.foreign n = .idle)
    (c : LoopCall φ) : WakeInv (s.foreignCall n c) := by
  cases c with
  | queueInLoop f => exact ⟨h.calling, h.busy, fun _ => Or.inl (Waking.pushed (s.push f) n)⟩
  | runInLoop f => exact ⟨h.calling, h.busy, fun _ => Or.inl (Waking.pushed (s.push f) n)⟩
  | quit =>
    refine ⟨h.calling, h.busy, fun hpend => ?_⟩
    rcases h.wake hpend with hw | ha | hb
    · exact Or.inl (Waking.setForeign (s := s.storeQuit) hw hidle .quitStored)
    · exact Or.inr (Or.inl ha)
    · exact Or.inr (Or.inr hb)

/-- What the invariant says of the own thread at a point that is neither a
    handler nor a functor. -/
theorem WakeInv.not_busy (h : WakeInv s) {pc : LoopPc} (hpc : s.pc = pc)
    (hne : pc ≠ .handling ∧ pc ≠ .inFunctor) : s.ownBusy = false := by
  by_contra hb
  rw [Bool.not_eq_false] at hb
  rcases h.busy hb with hp | hp
  · exact hne.1 (hpc.symm.trans hp)
  · exact hne.2 (hpc.symm.trans hp)

theorem WakeInv.not_calling (h : WakeInv s) {pc : LoopPc} (hpc : s.pc = pc)
    (hne : pc ≠ .swapping ∧ pc ≠ .functors ∧ pc ≠ .inFunctor) : s.calling = false := by
  by_contra hc
  rw [Bool.not_eq_false, h.calling, hpc] at hc
  rcases hc with hp | hp | hp
  · exact hne.1 hp
  · exact hne.2.1 hp
  · exact hne.2.2 hp

theorem WakeInv.step {l : LoopStep φ} (h : WakeInv s) (hloop : s.QueuesWhileLooping l)
    (hl : s.Enabled l) : WakeInv (s.perform l) := by
  cases l with
  | loop =>
    have hcall := h.not_calling hl.1 (by decide)
    refine h.move hl.2.1 (not_swapAhead hl.1 (by decide)) rfl rfl rfl rfl ?_
    simp [perform, hcall]
  | clearQuit =>
    have hcall := h.not_calling hl (by decide)
    refine h.move (h.not_busy hl (by decide)) (not_swapAhead hl (by decide)) rfl rfl rfl rfl ?_
    simp [perform, hcall]
  | whileTest =>
    have hcall := h.not_calling hl (by decide)
    refine h.move (h.not_busy hl (by decide)) (not_swapAhead hl (by decide)) rfl rfl rfl rfl ?_
    cases hq : s.quit <;> simp [perform, hcall, hq]
  | poll active =>
    have hcall := h.not_calling hl.1 (by decide)
    have hbusy := h.not_busy hl.1 (by decide)
    refine WakeInv.ahead (Or.inl rfl) ?_ ?_ <;> simp [perform, hcall, hbusy]
  | dispatch =>
    have hcall := h.not_calling hl.1 (by decide)
    have hbusy := h.not_busy hl.1 (by decide)
    simp only [perform]
    split
    · exact h
    · exact WakeInv.ahead (Or.inl hl.1) (by simp [handleRead, hbusy])
        (by simp [handleRead, hcall, hl.1])
    · exact WakeInv.ahead (Or.inr (Or.inl rfl)) (fun _ => rfl) (by simp [hcall])
  | handlerReturn =>
    have hcall := h.not_calling hl.1 (by decide)
    refine WakeInv.ahead (Or.inl rfl) ?_ ?_ <;> simp [perform, hcall, hl.2]
  | setCalling =>
    have hbusy := h.not_busy hl.1 (by decide)
    refine WakeInv.ahead (Or.inr (Or.inr rfl)) ?_ ?_ <;> simp [perform, hbusy]
  | swap =>
    have hcall : s.calling = true := h.calling.mpr (Or.inl hl)
    have hbusy := h.not_busy hl (by decide)
    refine ⟨?_, ?_, fun hne => absurd rfl hne⟩ <;> simp [perform, hcall, hbusy]
  | startFunctor =>
    have hcall : s.calling = true := h.calling.mpr (Or.inr (Or.inl hl.1))
    simp only [perform]
    split
    · exact h
    · have hbusy := h.not_busy hl.1 (by decide)
      refine h.move hbusy (not_swapAhead hl.1 (by decide)) rfl rfl rfl rfl ?_
      simp [hcall]
  | functorReturn =>
    have hcall : s.calling = true := h.calling.mpr (Or.inr (Or.inr hl.1))
    refine h.move hl.2 (not_swapAhead hl.1 (by decide)) rfl rfl rfl rfl ?_
    simp [perform, hcall]
  | clearCalling =>
    refine h.move (h.not_busy hl.1 (by decide)) (not_swapAhead hl.1 (by decide)) rfl rfl rfl rfl ?_
    simp [perform]
  | leave =>
    have hcall := h.not_calling hl (by decide)
    refine h.move (h.not_busy hl (by decide)) (not_swapAhead hl (by decide)) rfl rfl rfl rfl ?_
    simp [perform, hcall]
  | own c => exact h.ownCall hl hloop
  | ownWakeup => exact h.ownWakeup
  | foreign n c => exact h.foreignCall hl c
  | foreignWakeup n =>
    exact ⟨h.calling, h.busy, fun _ => Or.inl (Or.inl (wakeup_pos s))⟩

/-- **No lost wakeup.** When the thread is about to block in `poll` over a
    pending functor, the eventfd is readable or a foreign thread is between its
    push and its `wakeup()`. -/
theorem no_lost_wakeup (h : ((system φ).restrict QueuesWhileLooping).Reachable s)
    (hpc : s.pc = .polling) (hpend : s.pending ≠ []) :
    0 < s.eventfd ∨ ∃ n, s.foreign n = .pushed := by
  have hinv : WakeInv s := by
    refine h.invariant ?_ ?_
    · rintro _ rfl
      exact ⟨by simp, nofun, fun hne => absurd rfl hne⟩
    · rintro s l _ hs ⟨hloop, hl, rfl⟩
      exact hs.step hloop hl
  exact hinv.waking (not_swapAhead hpc (by decide)) (hinv.not_busy hpc (by decide)) hpend

theorem no_lost_wakeup_foreign :
    ∃ s : LoopState Nat, ((system Nat).restrict QueuesWhileLooping).Reachable s ∧ s.pc = .polling ∧
      s.pending = [1] ∧ s.eventfd = 0 ∧
      (0 < s.eventfd ∨ ∃ n, s.foreign n = .pushed) := by
  let tr : List (LoopStep Nat) := [.loop, .foreign 4 (.queueInLoop 1), .clearQuit, .whileTest]
  have hrun : ((system Nat).restrict QueuesWhileLooping).Run {} tr _ :=
    .of_allowed_restrict (by decide)
  exact ⟨_, ⟨_, _, rfl, hrun⟩, rfl, rfl, rfl,
    no_lost_wakeup ⟨_, _, rfl, hrun⟩ rfl (List.cons_ne_nil 1 [])⟩

-- ════════════════════════════════════════════════════════════════════════
-- Requests made before the loop runs
-- ════════════════════════════════════════════════════════════════════════

/-- The thread is in `poll` and nothing is there to end it but other channels. -/
def Blocked (s : LoopState φ) : Prop :=
  s.pc = .polling ∧ s.eventfd = 0 ∧ ∀ n, s.foreign n = .idle

/-- Not in the body of the `while`. -/
def OutsideBody (s : LoopState φ) : Prop :=
  s.pc = .outside ∨ s.pc = .starting ∨ s.pc = .whileTest ∨ s.pc = .leaving

/-- During the first `loop()`: after a `quit()` made before the `while` its body
    is never entered, and the thread does not block before it has executed every
    functor queued before the `while`. -/
def Honoured (s : LoopState φ) : Prop :=
  s.loopCalls ≤ 1 →
    (s.earlyQuit = true → s.quit = true ∧ s.OutsideBody) ∧
      (s.Blocked → s.earlyQuit = false ∧ s.pushed.take s.early <+: s.executed)

/-- When the first `loop()` stores `quit_ = false`, no `quit()` has been made, and
    pending functors have a wakeup with them. -/
def Calm (s : LoopState φ) : LoopStep φ → Prop
  | .clearQuit => s.loopCalls = 1 → s.quit = false ∧ (s.pending = [] ∨ s.Coming)
  | _ => True

/-- What the records say, in any run. -/
structure RecordInv (s : LoopState φ) : Prop where
  queue : QueueInv s
  before : s.entered = false →
    s.executed = [] ∧ s.early = s.pushed.length ∧
      (s.pc = .outside ∧ s.loopCalls = 0 ∨ (s.pc = .starting ∨ s.pc = .whileTest) ∧ s.loopCalls = 1)
  after : s.entered = true → s.early ≤ s.pushed.length ∧ 0 < s.loopCalls
  started : s.pc = .starting → 0 < s.loopCalls

structure EarlyInv (s : LoopState φ) : Prop where
  record : RecordInv s
  quit : s.loopCalls ≤ 1 → s.earlyQuit = true → s.quit = true ∧ s.OutsideBody
  /-- The loop goes to its first `poll` with a wakeup if it has to. -/
  start : s.entered = false → s.pc = .whileTest → s.pending = [] ∨ s.Coming
  /-- Until the first swap a wakeup or the swap itself is ahead. -/
  functors : s.loopCalls ≤ 1 → s.entered = true →
    s.executed.length + s.batch.length < s.early →
      s.pc = .polling ∧ s.Coming ∨ s.SwapAhead ∨ s.pc = .leaving ∨ s.pc = .outside

theorem RecordInv.entered (h : RecordInv s) {pc : LoopPc} (hpc : s.pc = pc)
    (hne : pc ≠ .outside ∧ pc ≠ .starting ∧ pc ≠ .whileTest) : s.entered = true := by
  by_contra hent
  rw [Bool.not_eq_true] at hent
  rcases (h.before hent).2.2 with ⟨hp, _⟩ | ⟨hp | hp, _⟩
  · exact hne.1 (hpc.symm.trans hp)
  · exact hne.2.1 (hpc.symm.trans hp)
  · exact hne.2.2 (hpc.symm.trans hp)

/-- A step of the own thread after the `while` has been entered. -/
theorem RecordInv.move (h : RecordInv s) (hq : QueueInv t) (hent : s.entered = true)
    (hent' : t.entered = s.entered) (hearly : t.early = s.early) (hpush : t.pushed = s.pushed)
    (hcalls : t.loopCalls = s.loopCalls) (hpc : t.pc ≠ .starting) : RecordInv t := by
  refine ⟨hq, ?_, ?_, fun hst => absurd hst hpc⟩
  · rw [hent', hent]
    nofun
  · intro _
    rw [hearly, hpush, hcalls]
    exact h.after hent

/-- A step that does not move the own thread and pushes nothing. -/
theorem RecordInv.same (h : RecordInv s) (hq : QueueInv t) (hpc : t.pc = s.pc)
    (hent : t.entered = s.entered) (hexec : t.executed = s.executed) (hearly : t.early = s.early)
    (hpush : t.pushed = s.pushed) (hcalls : t.loopCalls = s.loopCalls) : RecordInv t := by
  refine ⟨hq, ?_, ?_, ?_⟩
  · rw [hent, hexec, hearly, hpush, hpc, hcalls]
    exact h.before
  · rw [hent, hearly, hpush, hcalls]
    exact h.after
  · rw [hpc, hcalls]
    exact h.started

theorem RecordInv.push (h : RecordInv s) (f : φ) : RecordInv (s.push f) := by
  have hlen : (s.push f).pushed.length = s.pushed.length + 1 := List.length_append
  refine ⟨h.queue.push f, ?_, ?_, h.started⟩
  · intro hent
    have hent' : s.entered = false := hent
    obtain ⟨hexec, hearly, hpc⟩ := h.before hent'
    refine ⟨hexec, ?_, hpc⟩
    rw [hlen, ← hearly]
    change (if s.entered then s.early else s.early + 1) = s.early + 1
    rw [hent']
    rfl
  · intro hent
    have hent' : s.entered = true := hent
    obtain ⟨hearly, hcalls⟩ := h.after hent'
    refine ⟨?_, hcalls⟩
    rw [hlen]
    change (if s.entered then s.early else s.early + 1) ≤ _
    rw [hent']
    exact Nat.le_succ_of_le hearly

theorem RecordInv.loop (h : RecordInv s) (hl : s.Enabled .loop) :
    RecordInv (s.perform .loop) := by
  refine ⟨h.queue.step hl, fun hent => ?_, fun hent => ⟨(h.after hent).1, Nat.succ_pos _⟩,
    fun _ => Nat.succ_pos _⟩
  obtain ⟨hexec, hearly, ⟨_, hcalls⟩ | ⟨hpc, _⟩⟩ := h.before hent
  · exact ⟨hexec, hearly, Or.inr ⟨Or.inl rfl, congrArg (· + 1) hcalls⟩⟩
  · rw [hl.1] at hpc
    rcases hpc with hpc | hpc <;> cases hpc

theorem RecordInv.clearQuit (h : RecordInv s) (hl : s.Enabled .clearQuit) :
    RecordInv (s.perform .clearQuit) := by
  have hpc : s.pc = .starting := hl
  refine ⟨h.queue.step hl, ?_, h.after, ?_⟩
  · intro hent
    obtain ⟨hexec, hearly, ⟨hout, _⟩ | ⟨_, hcalls⟩⟩ := h.before hent
    · rw [hpc] at hout
      cases hout
    · exact ⟨hexec, hearly, Or.inr ⟨Or.inr rfl, hcalls⟩⟩
  · intro hst
    cases hst

/-- The first test enters the loop. -/
theorem RecordInv.whileTest (h : RecordInv s) (hl : s.Enabled .whileTest) :
    RecordInv (s.perform .whileTest) := by
  have hpc : s.pc = .whileTest := hl
  refine ⟨h.queue.step hl, fun hno => absurd hno.symm Bool.false_ne_true, fun _ => ?_, ?_⟩
  · by_cases hent : s.entered = true
    · exact h.after hent
    · rw [Bool.not_eq_true] at hent
      obtain ⟨_, hearly, ⟨hout, _⟩ | ⟨_, hcalls⟩⟩ := h.before hent
      · rw [hpc] at hout
        cases hout
      · exact ⟨Nat.le_of_eq hearly, Nat.lt_of_lt_of_eq Nat.one_pos hcalls.symm⟩
  · cases hquit : s.quit <;> simp [perform, hquit]

theorem RecordInv.step {l : LoopStep φ} (h : RecordInv s) (hl : s.Enabled l) :
    RecordInv (s.perform l) := by
  have hq := h.queue.step hl
  cases l with
  | loop => exact h.loop hl
  | clearQuit => exact h.clearQuit hl
  | whileTest => exact h.whileTest hl
  | poll active => exact h.move hq (h.entered hl.1 (by decide)) rfl rfl rfl rfl (by simp [perform])
  | dispatch =>
    have hent := h.entered hl.1 (by decide)
    simp only [perform] at hq ⊢
    split
    · exact h
    · rename_i hact
      rw [hact] at hq
      exact h.move hq hent rfl rfl rfl rfl (by simp [handleRead, hl.1])
    · rename_i hact
      rw [hact] at hq
      exact h.move hq hent rfl rfl rfl rfl (by simp)
  | handlerReturn => exact h.move hq (h.entered hl.1 (by decide)) rfl rfl rfl rfl (by simp [perform])
  | setCalling => exact h.move hq (h.entered hl.1 (by decide)) rfl rfl rfl rfl (by simp [perform])
  | swap => exact h.move hq (h.entered hl (by decide)) rfl rfl rfl rfl (by simp [perform])
  | startFunctor =>
    have hent := h.entered hl.1 (by decide)
    simp only [perform] at hq ⊢
    split
    · exact h
    · rename_i hb
      rw [hb] at hq
      exact h.move hq hent rfl rfl rfl rfl (by simp)
  | functorReturn => exact h.move hq (h.entered hl.1 (by decide)) rfl rfl rfl rfl (by simp [perform])
  | clearCalling => exact h.move hq (h.entered hl.1 (by decide)) rfl rfl rfl rfl (by simp [perform])
  | leave => exact h.move hq (h.entered hl (by decide)) rfl rfl rfl rfl (by simp [perform])
  | own c =>
    cases c with
    | queueInLoop f => exact (h.push f).same hq rfl rfl rfl rfl rfl rfl
    | runInLoop f => exact h.same hq rfl rfl rfl rfl rfl rfl
    | quit => exact h.same hq rfl rfl rfl rfl rfl rfl
  | ownWakeup =>
    simp only [perform] at hq ⊢
    split <;> rename_i hc <;> simp only [hc] at hq <;> exact h.same hq rfl rfl rfl rfl rfl rfl
  | foreign n c =>
    cases c with
    | queueInLoop f => exact (h.push f).same hq rfl rfl rfl rfl rfl rfl
    | runInLoop f => exact (h.push f).same hq rfl rfl rfl rfl rfl rfl
    | quit => exact h.same hq rfl rfl rfl rfl rfl rfl
  | foreignWakeup n => exact h.same hq rfl rfl rfl rfl rfl rfl

theorem Coming.setForeign (s : LoopState φ) (n : Nat) (pc : ForeignPc) (hpc : pc ≠ .idle) :
    Coming (s.setForeign n pc) := by
  refine Or.inr ⟨n, ?_⟩
  change Function.update s.foreign n pc n ≠ .idle
  rw [Function.update_self]
  exact hpc

theorem not_outsideBody {pc : LoopPc} (hpc : s.pc = pc)
    (hne : pc ≠ .outside ∧ pc ≠ .starting ∧ pc ≠ .whileTest ∧ pc ≠ .leaving) :
    ¬s.OutsideBody := by
  rw [OutsideBody, hpc]
  simp [hne]

/-- A step of the own thread from inside the body. -/
theorem EarlyInv.body (h : EarlyInv s) (hrec : RecordInv t) (hbody : ¬s.OutsideBody)
    (hquit : t.earlyQuit = s.earlyQuit) (hcalls : t.loopCalls = s.loopCalls)
    (hent : t.entered = true)
    (hfun : s.loopCalls ≤ 1 → t.executed.length + t.batch.length < t.early →
      t.pc = .polling ∧ t.Coming ∨ t.SwapAhead ∨ t.pc = .leaving ∨ t.pc = .outside) :
    EarlyInv t := by
  refine ⟨hrec, ?_, ?_, ?_⟩
  · intro hle hearly
    rw [hcalls] at hle
    rw [hquit] at hearly
    exact absurd (h.quit hle hearly).2 hbody
  · rw [hent]
    nofun
  · intro hle _ hlt
    rw [hcalls] at hle
    exact hfun hle hlt

/-- Past the first swap no early functor is left outside the batch. -/
theorem EarlyInv.swapped (h : EarlyInv s) (hcalls : s.loopCalls ≤ 1) {pc : LoopPc}
    (hpc : s.pc = pc) (hin : pc = .functors ∨ pc = .inFunctor) :
    s.early ≤ s.executed.length + s.batch.length := by
  have hent : s.entered = true := by
    rcases hin with rfl | rfl
    · exact h.record.entered hpc (by decide)
    · exact h.record.entered hpc (by decide)
  by_contra hlt
  rw [Nat.not_le] at hlt
  have hpoint := h.functors hcalls hent hlt
  rw [SwapAhead, hpc] at hpoint
  rcases hin with rfl | rfl <;> simp at hpoint

/-- A step that does not move the own thread. -/
theorem EarlyInv.call (h : EarlyInv s) (hrec : RecordInv t) (hpc : t.pc = s.pc)
    (hcalls : t.loopCalls = s.loopCalls) (hent : t.entered = s.entered)
    (hexec : t.executed = s.executed) (hbatch : t.batch = s.batch)
    (hearly : s.entered = true → t.early = s.early) (hcoming : s.Coming → t.Coming)
    (hstart : t.pending = s.pending ∨ t.Coming ∨ s.pc ≠ .whileTest)
    (hquit : s.loopCalls ≤ 1 → t.earlyQuit = true → t.quit = true ∧ s.OutsideBody) :
    EarlyInv t := by
  refine ⟨hrec, ?_, ?_, ?_⟩
  · rw [hcalls, OutsideBody, hpc]
    exact hquit
  · rw [hent, hpc]
    intro hno htest
    rcases hstart with heq | hc | hne
    · rw [heq]
      exact (h.start hno htest).imp id hcoming
    · exact Or.inr hc
    · exact absurd htest hne
  · rw [hcalls, hent, hexec, hbatch, hpc, SwapAhead, hpc]
    intro hle hyes hlt
    rw [hearly hyes] at hlt
    exact (h.functors hle hyes hlt).imp (fun hp => ⟨hp.1, hcoming hp.2⟩) id

theorem early_push (s : LoopState φ) (f : φ) (h : s.entered = true) :
    (s.push f).early = s.early := by
  change (if s.entered then s.early else s.early + 1) = s.early
  rw [h]
  rfl

/-- A `quit()` made before the `while` finds the thread outside the body. -/
theorem EarlyInv.storeQuit (h : EarlyInv s) (hle : s.loopCalls ≤ 1)
    (hearly : s.storeQuit.earlyQuit = true) : s.storeQuit.quit = true ∧ s.OutsideBody := by
  refine ⟨rfl, ?_⟩
  have hearly' : (s.earlyQuit || !s.entered) = true := hearly
  rw [Bool.or_eq_true, Bool.not_eq_true'] at hearly'
  rcases hearly' with hq | hent
  · exact (h.quit hle hq).2
  · rcases (h.record.before hent).2.2 with ⟨hp, _⟩ | ⟨hp | hp, _⟩
    · exact Or.inl hp
    · exact Or.inr (Or.inl hp)
    · exact Or.inr (Or.inr (Or.inl hp))

theorem EarlyInv.ownCall (h : EarlyInv s) {c : LoopCall φ} (hl : s.Enabled (.own c)) :
    EarlyInv (s.ownCall c) := by
  have hrec : RecordInv (s.ownCall c) := h.record.step hl
  have htest : s.pc ≠ .whileTest := by
    intro hpc
    have hcode := hl.1
    rw [hpc] at hcode
    simp at hcode
  cases c with
  | queueInLoop f =>
    exact h.call hrec rfl rfl rfl rfl rfl (early_push s f) id (Or.inr (Or.inr htest)) h.quit
  | runInLoop f =>
    exact h.call hrec rfl rfl rfl rfl rfl (fun _ => rfl) id (Or.inl rfl) h.quit
  | quit =>
    exact h.call hrec rfl rfl rfl rfl rfl (fun _ => rfl) id (Or.inl rfl) h.storeQuit

theorem EarlyInv.foreignCall (h : EarlyInv s) {n : Nat} {c : LoopCall φ}
    (hl : s.Enabled (.foreign n c)) : EarlyInv (s.foreignCall n c) := by
  have hrec : RecordInv (s.foreignCall n c) := h.record.step hl
  cases c with
  | queueInLoop f =>
    have hcoming := Coming.setForeign (s.push f) n .pushed nofun
    exact h.call hrec rfl rfl rfl rfl rfl (early_push s f) (fun _ => hcoming)
      (Or.inr (Or.inl hcoming)) h.quit
  | runInLoop f =>
    have hcoming := Coming.setForeign (s.push f) n .pushed nofun
    exact h.call hrec rfl rfl rfl rfl rfl (early_push s f) (fun _ => hcoming)
      (Or.inr (Or.inl hcoming)) h.quit
  | quit =>
    have hcoming := Coming.setForeign s.storeQuit n .quitStored nofun
    exact h.call hrec rfl rfl rfl rfl rfl (fun _ => rfl) (fun _ => hcoming) (Or.inl rfl)
      h.storeQuit

theorem EarlyInv.ownWakeup (h : EarlyInv s) (hl : s.Enabled .ownWakeup) :
    EarlyInv (s.perform .ownWakeup) := by
  have hrec := h.record.step hl
  simp only [perform] at hrec ⊢
  by_cases hcall : s.calling = true
  · rw [if_pos hcall] at hrec ⊢
    exact h.call hrec rfl rfl rfl rfl rfl (fun _ => rfl) (fun _ => Or.inl (wakeup_pos s))
      (Or.inl rfl) h.quit
  · rw [if_neg hcall] at hrec ⊢
    exact h.call hrec rfl rfl rfl rfl rfl (fun _ => rfl) id (Or.inl rfl) h.quit

theorem EarlyInv.whileTest (h : EarlyInv s) (hl : s.Enabled .whileTest) :
    EarlyInv (s.perform .whileTest) := by
  have hpc : s.pc = .whileTest := hl
  have hrec : RecordInv (s.perform .whileTest) := h.record.step hl
  refine ⟨hrec, ?_, nofun, ?_⟩
  · intro hle hearly
    have hquit := (h.quit hle hearly).1
    refine ⟨hquit, Or.inr (Or.inr (Or.inr ?_))⟩
    simp [perform, hquit]
  · intro hle _ hlt
    have hlt' : s.executed.length + s.batch.length < s.early := hlt
    by_cases hent : s.entered = true
    · -- a later round: the first swap is behind
      have hpoint := h.functors hle hent hlt'
      rw [SwapAhead, hpc] at hpoint
      simp at hpoint
    · rw [Bool.not_eq_true] at hent
      rcases h.start hent hpc with hnil | hcoming
      · -- nothing was queued before the `while`
        have horder := congrArg List.length h.record.queue.order
        rw [hnil, List.append_nil, List.length_append, ← (h.record.before hent).2.1] at horder
        exact absurd horder (Nat.ne_of_lt hlt')
      · cases hquit : s.quit with
        | true => exact Or.inr (Or.inr (Or.inl (by simp [perform, hquit])))
        | false => exact Or.inl ⟨by simp [perform, hquit], hcoming⟩

theorem EarlyInv.clearQuit (h : EarlyInv s) (hcalm : s.Calm .clearQuit)
    (hl : s.Enabled .clearQuit) : EarlyInv (s.perform .clearQuit) := by
  have hpc : s.pc = .starting := hl
  have hpos := h.record.started hpc
  have hcalm' : s.loopCalls ≤ 1 → s.quit = false ∧ (s.pending = [] ∨ s.Coming) :=
    fun hle => hcalm (Nat.le_antisymm hle hpos)
  refine ⟨h.record.step hl, ?_, ?_, ?_⟩
  · intro hle hearly
    have hquit := (h.quit hle hearly).1
    rw [(hcalm' hle).1] at hquit
    cases hquit
  · intro hent _
    rcases (h.record.before hent).2.2 with ⟨_, hcalls⟩ | ⟨_, hcalls⟩
    · exact absurd hpos (by rw [hcalls]; exact Nat.lt_irrefl 0)
    · exact (hcalm' (Nat.le_of_eq hcalls)).2
  · intro hle hent hlt
    have hpoint := h.functors hle hent hlt
    rw [SwapAhead, hpc] at hpoint
    simp at hpoint

/-- A functor moves from the batch to the executed ones. -/
theorem EarlyInv.startFunctor (h : EarlyInv s) (hl : s.Enabled .startFunctor) :
    EarlyInv (s.perform .startFunctor) := by
  have hrec := h.record.step hl
  have hent := h.record.entered hl.1 (by decide)
  have hsum := congrArg List.length (perform_batch (l := .startFunctor) (by simp) s)
  rw [List.length_append, List.length_append] at hsum
  simp only [perform] at hrec hsum ⊢
  split
  · exact h
  · rename_i hb
    rw [hb] at hrec hsum
    refine h.body hrec (not_outsideBody hl.1 (by decide)) rfl rfl hent ?_
    intro hle hlt
    have hin := h.swapped hle hl.1 (Or.inl rfl)
    rw [hb, ← hsum] at hin
    exact absurd hin (Nat.not_le.mpr hlt)

theorem EarlyInv.step {l : LoopStep φ} (h : EarlyInv s) (hcalm : s.Calm l) (hl : s.Enabled l) :
    EarlyInv (s.perform l) := by
  have hrec := h.record.step hl
  cases l with
  | loop =>
    refine ⟨hrec, ?_, ?_, ?_⟩
    · intro hle hearly
      have hle' : s.loopCalls + 1 ≤ 1 := hle
      exact ⟨(h.quit (by omega) hearly).1, Or.inr (Or.inl rfl)⟩
    · intro _ htest
      cases htest
    · intro hle hent _
      have hle' : s.loopCalls + 1 ≤ 1 := hle
      have hpos := (h.record.after hent).2
      omega
  | clearQuit => exact h.clearQuit hcalm hl
  | whileTest => exact h.whileTest hl
  | poll active =>
    exact h.body hrec (not_outsideBody hl.1 (by decide)) rfl rfl
      (h.record.entered hl.1 (by decide)) fun _ _ => Or.inr (Or.inl (Or.inl rfl))
  | dispatch =>
    have hbody := not_outsideBody hl.1 (by decide)
    have hent := h.record.entered hl.1 (by decide)
    simp only [perform] at hrec ⊢
    split
    · exact h
    · rename_i hact
      rw [hact] at hrec
      exact h.body hrec hbody rfl rfl hent fun _ _ => Or.inr (Or.inl (Or.inl hl.1))
    · rename_i hact
      rw [hact] at hrec
      exact h.body hrec hbody rfl rfl hent fun _ _ => Or.inr (Or.inl (Or.inr (Or.inl rfl)))
  | handlerReturn =>
    exact h.body hrec (not_outsideBody hl.1 (by decide)) rfl rfl
      (h.record.entered hl.1 (by decide)) fun _ _ => Or.inr (Or.inl (Or.inl rfl))
  | setCalling =>
    exact h.body hrec (not_outsideBody hl.1 (by decide)) rfl rfl
      (h.record.entered hl.1 (by decide)) fun _ _ => Or.inr (Or.inl (Or.inr (Or.inr rfl)))
  | swap =>
    have hent := h.record.entered hl (by decide)
    refine h.body hrec (not_outsideBody hl (by decide)) rfl rfl hent fun _ hlt => ?_
    -- the swap takes everything that is pending
    have hall := congrArg List.length (h.record.queue.before_swap hl).2
    rw [List.length_append] at hall
    have hlt' : s.executed.length + s.pending.length < s.early := hlt
    exact absurd (h.record.after hent).1 (by omega)
  | startFunctor => exact h.startFunctor hl
  | functorReturn =>
    refine h.body hrec (not_outsideBody hl.1 (by decide)) rfl rfl
      (h.record.entered hl.1 (by decide)) fun hle hlt => ?_
    exact absurd (h.swapped hle hl.1 (Or.inr rfl)) (Nat.not_le.mpr hlt)
  | clearCalling =>
    refine h.body hrec (not_outsideBody hl.1 (by decide)) rfl rfl
      (h.record.entered hl.1 (by decide)) fun hle hlt => ?_
    exact absurd (h.swapped hle hl.1 (Or.inl rfl)) (Nat.not_le.mpr hlt)
  | leave =>
    have hent := h.record.entered hl (by decide)
    refine ⟨hrec, fun hle hearly => ⟨(h.quit hle hearly).1, Or.inl rfl⟩, ?_, ?_⟩
    · intro hno
      have hno' : s.entered = false := hno
      rw [hent] at hno'
      cases hno'
    · exact fun _ _ _ => Or.inr (Or.inr (Or.inr rfl))
  | own c => exact h.ownCall hl
  | ownWakeup => exact h.ownWakeup hl
  | foreign n c => exact h.foreignCall hl
  | foreignWakeup n =>
    exact h.call hrec rfl rfl rfl rfl rfl (fun _ => rfl) (fun _ => Or.inl (wakeup_pos s))
      (Or.inl rfl) h.quit

theorem EarlyInv.honoured (h : EarlyInv s) : Honoured s := by
  intro hle
  refine ⟨h.quit hle, ?_⟩
  rintro ⟨hpc, hfd, hidle⟩
  have hbody := not_outsideBody hpc (by decide)
  refine ⟨?_, ?_⟩
  · by_contra hearly
    rw [Bool.not_eq_false] at hearly
    exact hbody (h.quit hle hearly).2
  · -- a blocked thread has no batch and nothing to wait for
    have hnil : s.batch = [] := h.record.queue.rest (by rw [hpc]; nofun) (by rw [hpc]; nofun)
    have hdone : s.early ≤ s.executed.length := by
      by_contra hlt
      have hlt' : s.executed.length + s.batch.length < s.early := by
        rw [hnil]
        exact Nat.not_le.mp hlt
      have hpoint := h.functors hle (h.record.entered hpc (by decide)) hlt'
      rw [SwapAhead, hpc, Coming, hfd] at hpoint
      simp [hidle] at hpoint
    rw [← h.record.queue.order, List.append_assoc, List.take_append_of_le_length hdone]
    exact List.take_prefix _ _

/-- **Requests made before `loop()` are honoured** in every run that clears
    `quit_` only when no `quit()` has been made and no pending functor lacks a
    wakeup. -/
theorem early_requests_honoured (h : ((system φ).restrict Calm).Reachable s) : Honoured s := by
  have hinv : EarlyInv s := by
    refine h.invariant ?_ ?_
    · rintro _ rfl
      refine ⟨⟨⟨rfl, fun _ _ => rfl⟩, fun _ => ⟨rfl, rfl, Or.inl ⟨rfl, rfl⟩⟩, nofun, nofun⟩,
        fun _ => nofun, fun _ => nofun, fun _ => nofun⟩
    · rintro s l _ hs ⟨hcalm, hl, rfl⟩
      exact hs.step hcalm hl
  exact hinv.honoured

/-- The condition is needed: a first `loop()` that starts after a `quit()`, or with
    functors pending, and no wakeup on its way blocks at once. -/
theorem not_honoured_of_silent_start (h : RecordInv s)
    (hcalls : s.loopCalls = 1) (hno : s.entered = false) (hsilent : ¬s.Coming)
    (hwork : s.earlyQuit = true ∨ s.pending ≠ []) :
    ¬Honoured ((s.perform .clearQuit).perform .whileTest) := by
  intro hhon
  rw [Coming, not_or, not_exists] at hsilent
  have hblocked : Blocked ((s.perform .clearQuit).perform .whileTest) :=
    ⟨rfl, Nat.eq_zero_of_not_pos hsilent.1, fun n => not_not.mp (hsilent.2 n)⟩
  obtain ⟨hquit, hdone⟩ := (hhon (Nat.le_of_eq hcalls)).2 hblocked
  rcases hwork with hearly | hpend
  · rw [show s.earlyQuit = false from hquit] at hearly
    cases hearly
  · obtain ⟨hexec, hearly, _⟩ := h.before hno
    have hdone' : s.pushed.take s.early <+: s.executed := hdone
    rw [hearly, List.take_length, hexec, List.prefix_nil] at hdone'
    have horder := h.queue.order
    rw [hdone'] at horder
    exact hpend (List.append_eq_nil_iff.mp horder).2

theorem early_requests_honoured_foreign :
    ∃ s : LoopState Nat, ((system Nat).restrict Calm).Reachable s ∧ s.Blocked ∧ s.early = 1 ∧
      s.executed = [7] ∧ s.Honoured := by
  -- queued by another thread after `start_loop` has published the loop
  let tr : List (LoopStep Nat) := [.foreign 0 (.queueInLoop 7), .foreignWakeup 0, .loop,
    .clearQuit, .whileTest, .poll [.wakeupChannel], .dispatch, .setCalling, .swap,
    .startFunctor, .functorReturn, .clearCalling, .whileTest]
  have hrun : ((system Nat).restrict Calm).Run {} tr _ := .of_allowed_restrict
    ⟨⟨trivial, by decide⟩, ⟨trivial, by decide⟩, ⟨trivial, by decide⟩,
      ⟨fun _ => ⟨rfl, Or.inr (Or.inl Nat.one_pos)⟩, by decide⟩, ⟨trivial, by decide⟩,
      ⟨trivial, by decide⟩, ⟨trivial, by decide⟩, ⟨trivial, by decide⟩, ⟨trivial, by decide⟩,
      ⟨trivial, by decide⟩, ⟨trivial, by decide⟩, ⟨trivial, by decide⟩, ⟨trivial, by decide⟩,
      trivial⟩
  refine ⟨_, ⟨_, _, rfl, hrun⟩, ⟨rfl, rfl, fun n => ?_⟩, rfl, rfl,
    early_requests_honoured ⟨_, _, rfl, hrun⟩⟩
  simp [tr, perform, foreignCall, setForeign, wakeup, push, handleRead]

theorem quit_before_loop_lost :
    ¬∀ s : LoopState Nat, (system Nat).Reachable s → s.Honoured := by
  intro hall
  -- `~Event_Loop_Thread` calls `quit()` just before `loop()` stores `quit_ = false`
  let tr : List (LoopStep Nat) := [.loop, .foreign 0 .quit, .foreignWakeup 0, .clearQuit,
    .whileTest, .poll [.wakeupChannel], .dispatch, .setCalling, .swap, .clearCalling, .whileTest]
  have hrun : (system Nat).Run {} tr (tr.foldl perform {}) := .of_allowed (by decide)
  have hblocked : (tr.foldl perform {}).Blocked := by
    refine ⟨rfl, rfl, fun n => ?_⟩
    simp [tr, perform, foreignCall, setForeign, wakeup, storeQuit, handleRead]
  have hearly : (tr.foldl perform {}).earlyQuit = false :=
    ((hall _ ⟨_, _, rfl, hrun⟩ (Nat.le_refl 1)).2 hblocked).1
  cases hearly

end LoopState

end DamnWebServer
