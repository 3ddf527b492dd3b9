import DamnWebServer.Lib.Potential
import DamnWebServer.Log.AsyncStop

/-!
# `stop()` returns

The thread may be anywhere in its loop when `stop()` clears `running_`, and the producers may
go on to append while `stop()` joins it. The thread is at most one round away from its end,
and that round is as long as `buffers_` is at its swap section: a producer can delay `stop()`
by one buffer for each `append`, no more. The notification of `stop()` may find nobody
waiting; then the timeout of `wait_for` does its work.
-/

namespace DamnWebServer

/-- The steps of the owner that are left of `stop()`. -/
def OwnerPc.ahead : OwnerPc → Nat
  | .created | .started | .stopping => 3
  | .notifying => 2
  | .joining => 1
  | .returned => 0

def AsyncStep.isAppend : AsyncStep → Bool
  | .append _ _ _ => true
  | _ => false

namespace AsyncLogging

variable {s t u : AsyncLogging}

/-- The steps of the thread that are left once `running_` is cleared. -/
def threadAhead (s : AsyncLogging) : Nat :=
  match s.pc with
  | .notStarted | .finished => 0
  | .leaving => 1
  | .whileTest => 2
  | .entry | .clearing => 3
  | .refilling2 => 4
  | .refilling1 => 5
  | .trimming => 6
  | .writing i => s.buffersToWrite.length - i + 7
  | .waiting => s.buffers.length + 9
  | .locking => s.buffers.length + 10

/-- All the steps that are left of `stop()`. -/
def ahead (s : AsyncLogging) : Nat := s.threadAhead + s.owner.ahead

/-- A step of the thread or of the owner. -/
def cost (l : AsyncStep) : Nat := if !l.isAppend then 1 else 0

/-- An `append` may queue a buffer. -/
def credit (l : AsyncStep) : Nat := if l.isAppend then 1 else 0

theorem threadAhead_le (s : AsyncLogging) :
    s.threadAhead ≤ s.buffers.length + s.buffersToWrite.length + 10 := by
  unfold threadAhead
  split <;> omega

/-- The thread of a logger that has been started. -/
structure Stopping (s : AsyncLogging) : Prop extends Stopped s where
  started : s.pc ≠ .notStarted

/-- No step takes the thread back to its beginning. -/
theorem started_step {l : AsyncStep} (hstep : system.step s l t)
    (h : s.pc = .notStarted → s.owner = .created) : t.pc = .notStarted → t.owner = .created := by
  obtain ⟨hl, hperf⟩ := hstep
  intro hpc
  cases l with
  | append logline memory hmem =>
    obtain ⟨hsame, _, howner, _⟩ := append_frame hperf
    exact howner.trans (h (hsame ▸ hpc))
  | start =>
    cases hperf
    cases hpc
  | callStop | storeRunning | notify =>
    cases hperf
    exact absurd (hl.symm.trans (h hpc)) (by decide)
  | join =>
    cases hperf
    exact absurd (hl.1.symm.trans (h hpc)) (by decide)
  | backend =>
    exfalso
    cases backStep_of_threadFunc hperf with
    | rest hrest => exact hrest.elim hl.1 hl.2
    | test htest =>
      change (if s.running = true then BackPc.locking else BackPc.leaving) = BackPc.notStarted at hpc
      split at hpc <;> cases hpc
    | entry _ | wait _ | swap _ | write _ _ | written _ | trim _ | refill1 _ _ | keep1 _ | refill2 _ _
    | keep2 _ | clear _ | leave _ => cases hpc

theorem reachable_started (h : system.Reachable s) : s.pc = .notStarted → s.owner = .created := by
  refine h.invariant (I := fun s => s.pc = .notStarted → s.owner = .created) ?_ ?_
  · rintro _ rfl _
    rfl
  · intro s l t hs hstep
    exact started_step hstep hs

theorem Stopping.step (h : Stopping s) {l : AsyncStep} (hstep : system.step s l t) : Stopping t := by
  have hstopped := (h.toStopped.step hstep).1
  refine ⟨hstopped, fun hpc => ?_⟩
  have hcreated := started_step hstep (fun hs => absurd hs h.started) hpc
  exact absurd (hcreated ▸ hstopped.past) (by decide)

/-- `storeRunning` is where the thread begins to leave. -/
theorem stopping_of_storeRunning (h : system.Reachable s) (hstore : system.step s .storeRunning t) :
    Stopping t := by
  have hinv := (reachable_stopInv h).step hstore
  have hstarted := reachable_started h
  obtain ⟨hl, hperf⟩ := hstore
  cases hperf
  exact ⟨⟨hinv, rfl, Or.inl rfl⟩, fun hpc => absurd (hl.symm.trans (hstarted hpc)) (by decide)⟩

/-- An `append` queues one buffer at most. -/
theorem append_buffers {logline : List Byte} {fresh : LogBuffer} (h : s.append logline fresh = .ok t) :
    t.buffersToWrite = s.buffersToWrite ∧ t.buffers.length ≤ s.buffers.length + 1 := by
  obtain ⟨current, _, hrest⟩ := bind_eq_ok h
  split at hrest
  · cases hrest
    exact ⟨rfl, Nat.le_succ _⟩
  · obtain ⟨next, _, hend⟩ := bind_eq_ok hrest
    cases hend
    exact ⟨rfl, by rw [List.length_append, List.length_singleton]⟩

theorem threadAhead_append {logline : List Byte} {fresh : LogBuffer}
    (h : s.append logline fresh = .ok t) : t.threadAhead ≤ s.threadAhead + 1 := by
  obtain ⟨hwrite, hbuffers⟩ := append_buffers h
  have hpc := (append_frame h).1
  unfold threadAhead
  rw [hpc, hwrite]
  split <;> omega

/-- Every step of the thread brings it nearer to its end. -/
theorem threadAhead_backStep (hrun : s.running = false) (hpc : s.pc ≠ .notStarted ∧ s.pc ≠ .finished)
    (h : BackStep s t) : t.threadAhead + 1 ≤ s.threadAhead := by
  cases h with
  | rest hrest => exact absurd hrest (not_or.mpr hpc)
  | test htest =>
    rw [hrun]
    simp only [threadAhead, htest, Bool.false_eq_true, if_false]
    decide
  | swap hswap =>
    have hlen : s.swapSection.threadAhead = s.buffers.length + 8 := by
      change (s.buffers ++ [s.currentBuffer]).length - 0 + 7 = _
      rw [List.length_append]
      rfl
    rw [hlen]
    rcases hswap with hswap | hswap <;> simp only [threadAhead, hswap] <;> omega
  | @write i b hwrite hb =>
    have hlt : i < s.buffersToWrite.length := (List.getElem?_eq_some_iff.mp hb).1
    simp only [threadAhead, hwrite]
    omega
  | entry hat | wait hat | written hat | trim hat | refill1 hat _ | keep1 hat | refill2 hat _ | keep2 hat
  | clear hat | leave hat =>
    simp only [threadAhead, hat]
    omega

/-- What a step costs was ahead, or an `append` has brought it. -/
theorem Stopping.ahead_step (h : Stopping s) {l : AsyncStep} (hstep : system.step s l t) :
    t.ahead + cost l ≤ s.ahead + credit l := by
  obtain ⟨hl, hperf⟩ := hstep
  have hpast := h.past
  unfold ahead
  cases l with
  | append logline memory hmem =>
    have hthread := threadAhead_append hperf
    rw [(append_frame hperf).2.2.1]
    simp only [cost, credit, AsyncStep.isAppend, if_true, Bool.not_true, Bool.false_eq_true, if_false]
    omega
  | start | callStop | storeRunning =>
    change s.owner = _ at hl
    rw [hl] at hpast
    exact absurd hpast (by decide)
  | notify =>
    cases hperf
    change s.owner = _ at hl
    rw [hl]
    exact le_rfl
  | join =>
    cases hperf
    rw [hl.1]
    exact le_rfl
  | backend =>
    have hthread := threadAhead_backStep h.running hl (backStep_of_threadFunc hperf)
    have howner : t.owner = s.owner := by
      rcases threadFunc_cases hperf with ⟨_, rfl⟩ | hstays
      · rfl
      · exact hstays.owner
    rw [howner]
    simp only [cost, credit, AsyncStep.isAppend, Bool.not_false, if_true, Bool.false_eq_true, if_false]
    omega

/-- Until `stop()` has returned, the owner or the thread can go on. -/
theorem Stopping.progress (h : Stopping s) (hown : s.owner ≠ .returned) :
    ∃ l t, l.isAppend = false ∧ system.step s l t := by
  have henabled : ∃ l : AsyncStep, l.isAppend = false ∧ s.Enabled l := by
    rcases h.past with hpast | hpast | hpast
    · exact ⟨.notify, rfl, hpast⟩
    · by_cases hpc : s.pc = .finished
      · exact ⟨.join, rfl, hpast, hpc⟩
      · exact ⟨.backend, rfl, h.started, hpc⟩
    · exact absurd hpast hown
  obtain ⟨l, hkind, hl⟩ := henabled
  obtain ⟨t, ht, _⟩ := h.toInv.perform hl
  exact ⟨l, t, hkind, hl, ht⟩

/-- **`stop()` returns.** After `running_` has been cleared, the owner and the thread together
    take no more steps than there were buffers queued, twelve, and one for each `append` since;
    and until `stop()` has returned one of them has a step to take. -/
theorem stop_returns {tr : List AsyncStep} (h : system.Reachable s)
    (hstore : system.step s .storeRunning t) (hrun : system.Run t tr u) :
    tr.countP (fun l => !l.isAppend) ≤
        s.buffers.length + s.buffersToWrite.length + 12 + tr.countP AsyncStep.isAppend ∧
      (u.owner ≠ .returned → ∃ l v, l.isAppend = false ∧ system.step u l v) := by
  have hstop := stopping_of_storeRunning h hstore
  have hkeep : ∀ v l w, Stopping v → system.step v l w → Stopping w :=
    fun v l w hv hstep => hv.step hstep
  refine ⟨?_, (hrun.invariant hkeep hstop).progress⟩
  have hpaid := hrun.cost_le ahead hkeep (fun v l w hv hstep => hv.ahead_step hstep) hstop
  have hcost : (tr.map cost).sum = tr.countP fun l => !l.isAppend :=
    Transition.System.sum_map_kind _ tr
  have hcredit : (tr.map credit).sum = tr.countP AsyncStep.isAppend :=
    Transition.System.sum_map_kind _ tr
  rw [hcost, hcredit] at hpaid
  have hahead : t.ahead = s.threadAhead + 2 := by
    cases hstore.2
    rfl
  have hthread := s.threadAhead_le
  omega

/-- A stop that finds the thread waiting, with an `append` on the way. -/
theorem stop_returns_waiting :
    ∃ s t u : AsyncLogging, system.Reachable s ∧ s.pc = .waiting ∧
      system.step s .storeRunning t ∧ system.Run t [appendZeroed [1], .notify, .backend, .backend] u ∧
      ∃ l v, l.isAppend = false ∧ system.step u l v := by
  let tr : List AsyncStep := [.start, .backend, .backend, .backend, .callStop]
  have hval : (new.after tr).bind (fun s => (s.after [.storeRunning]).bind fun t =>
      (t.after [appendZeroed [1], .notify, .backend, .backend]).map fun u => (s.pc, u.owner)) =
        some (.waiting, .joining) := by
    decide
  obtain ⟨s, hs, hrest⟩ := Option.bind_eq_some_iff.mp hval
  obtain ⟨t, ht, hrest⟩ := Option.bind_eq_some_iff.mp hrest
  obtain ⟨u, hu, hproj⟩ := Option.map_eq_some_iff.mp hrest
  simp only [Prod.mk.injEq] at hproj
  obtain ⟨hpc, hown⟩ := hproj
  obtain ⟨v, hstore, hnil⟩ := (run_of_after ht).of_cons
  cases hnil.of_nil
  have hrun := run_of_after hu
  have hreach : system.Reachable s := ⟨new, tr, rfl, run_of_after hs⟩
  have hreturns := stop_returns hreach hstore hrun
  exact ⟨s, t, u, hreach, hpc, hstore, hrun, hreturns.2 (by rw [hown]; decide)⟩

end AsyncLogging

end DamnWebServer
