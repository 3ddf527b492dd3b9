import DamnWebServer.Net.EventLoopThread

/-!
# The end of a thread with an event loop

Where the two threads of an `Event_Loop_Thread` come to rest, what `start_loop()` returns, and
how the destructor can fail when nobody else quits the loop: `quit()` sets `quit_` while the
loop is there, but its `wakeup()` can come after the new thread has destroyed it.
-/

namespace DamnWebServer

open Monitor

namespace EventLoopThread

variable {w w' w'' : EventLoopThread} {e : Monitor.Event ThreadSide LoopSection (Option Bool)}
  {m : Monitor.State ThreadSide LoopSection Bool (Option Bool)}

-- ════════════════════════════════════════════════════════════════════════
-- Nobody else quits the loop
-- ════════════════════════════════════════════════════════════════════════

/-- The destructor alone quits the loop. -/
def Respects (_ : EventLoopThread) : LoopThreadEvent → Prop
  | .otherQuit | .otherWakeup | .ownQuit => False
  | .startLoop | .thread _ | .started | .monitor _ | .construct | .callback | .enter | .leave
  | .destruct | .finish | .look | .quit | .wakeup | .join | .joined | .destroy => True

structure Kept (w : EventLoopThread) : Prop where
  inv : Inv w
  fault : w.fault = none
  quit : w.quit = true → w.owner.told = true
  ended : w.func.ended = true → w.quit = true
  ending : w.owner = .ending ∨ w.owner = .gone →
    w.func = .absent ∧ w.thread.created = .absent ∨ w.func = .finished

/-- Until the destructor has told it, the loop does not end. -/
theorem Kept.not_ended (h : Kept w) (htold : w.owner.told = false) : w.func.ended = false := by
  by_contra hended
  rw [h.quit (h.ended (Bool.not_eq_false _ ▸ hended))] at htold
  cases htold

/-- While the new thread is in its function, the object is there. -/
theorem Kept.touch_eq (h : Kept w) (habsent : w.func ≠ .absent) (hfinished : w.func ≠ .finished)
    (w' : EventLoopThread) : w.touch w' = w' := by
  refine if_neg fun hgone => ?_
  rcases h.ending (Or.inr hgone) with ⟨hfunc, _⟩ | hfunc
  · exact habsent hfunc
  · exact hfinished hfunc

/-- Nobody makes an operation on the monitor of an object that is gone. -/
theorem Kept.touch_monitor (h : Kept w) (hfollow : Follow w e w')
    (hmonitor : Monitor.Step proc may w.monitor e m) (w'' : EventLoopThread) : w.touch w'' = w'' := by
  refine if_neg fun hgone => ?_
  have hfunc : w.func = .absent ∨ w.func = .finished := (h.ending (Or.inr hgone)).imp And.left id
  have hidle := h.inv.phases_idle (by rw [hgone]; rfl)
    (by rcases hfunc with hfunc | hfunc <;> rw [hfunc] <;> rfl)
  cases hfollow with
  | inner | wake => exact hmonitor.inside (fun u c heq => by cases heq) (hidle _)
  | callGet howner | returnGet howner =>
    rw [hgone] at howner
    cases howner
  | callSet hpc | callClear hpc | returnSet hpc | returnClear hpc =>
    rcases hfunc with hfunc | hfunc <;> rw [hfunc] at hpc <;> cases hpc

/-- At the end nobody is in the monitor. -/
theorem Kept.holder_none (h : Kept w) (howner : w.owner = .ending) : w.monitor.holder = none := by
  cases hholder : w.monitor.holder with
  | none => rfl
  | some side =>
    have hinside := (h.inv.exclusive.holder side).mp hholder
    have hfunc : w.func.call = none := by
      rcases h.ending (Or.inl howner) with ⟨hfunc, _⟩ | hfunc <;> rw [hfunc] <;> rfl
    have hcall := h.inv.phases_idle (by rw [howner]; rfl) hfunc side
    rw [Phase.eq_outside hcall] at hinside
    exact absurd hinside id

/-- When the destructor is about to call `quit()`, the loop is there. -/
theorem Kept.alive (h : Kept w) (hpast : w.owner.past = true) (htold : w.owner.told = false) :
    w.func.alive = true ∧ w.monitor.data = true := by
  have hpublished := h.inv.seen (Or.inl hpast)
  have hended := h.not_ended htold
  rw [h.inv.data]
  cases hfunc : w.func <;> rw [hfunc] at hpublished hended
  · cases hpublished
  · cases hpublished
  · cases hpublished
  · exact ⟨rfl, hpublished⟩
  · exact ⟨rfl, rfl⟩
  · exact ⟨rfl, rfl⟩
  all_goals cases hended

/-- The new thread moves, and does not set `quit_`. -/
theorem Kept.funcMove (h : Kept w) (hinv : Inv w') (howner : w'.owner = w.owner)
    (hfault : w'.fault = none) (hquit : w'.quit = true → w.quit = true)
    (hended : w'.func.ended = true → w'.quit = true)
    (hhere : w.func ≠ .absent ∨ w.thread.created ≠ .absent) (hfinished : w.func ≠ .finished) :
    Kept w' where
  inv := hinv
  fault := hfault
  quit hq := howner ▸ h.quit (hquit hq)
  ended := hended
  ending hpc := by
    rw [howner] at hpc
    rcases h.ending hpc with ⟨hfunc, hcreated⟩ | hfunc
    · rcases hhere with hhere | hhere
      · exact absurd hfunc hhere
      · exact absurd hcreated hhere
    · exact absurd hfunc hfinished

/-- The owner moves, and has not yet called `quit()`. -/
theorem Kept.hostMove (h : Kept w) (hinv : Inv w') (hfault : w'.fault = none)
    (hquit : w'.quit = w.quit) (hfunc : w'.func = w.func) (htold : w.owner.told = false)
    (hnew : w'.owner.told = false) : Kept w' where
  inv := hinv
  fault := hfault
  quit hq := by
    rw [h.quit (hquit ▸ hq)] at htold
    cases htold
  ended hf := by
    rw [hquit]
    exact h.ended (hfunc ▸ hf)
  ending hpc := by
    rcases hpc with hpc | hpc <;> rw [hpc] at hnew <;> cases hnew

/-- The thread is joined, or the object goes. -/
theorem Kept.close (h : Kept w) (hinv : Inv w') (hfault : w'.fault = none) (hquit : w'.quit = w.quit)
    (hfunc : w'.func = w.func) (htold : w'.owner.told = true)
    (hending : w'.owner = .ending ∨ w'.owner = .gone →
      w'.func = .absent ∧ w'.thread.created = .absent ∨ w'.func = .finished) : Kept w' where
  inv := hinv
  fault := hfault
  quit _ := htold
  ended hf := by
    rw [hquit]
    exact h.ended (hfunc ▸ hf)
  ending := hending

theorem Kept.monitor (h : Kept w) (hfollow : Follow w e w')
    (hmonitor : Monitor.Step proc may w.monitor e m) : Kept { w' with monitor := m } := by
  have hinv := h.inv.monitor hfollow hmonitor
  cases hfollow with
  | inner | wake => exact ⟨hinv, h.fault, h.quit, h.ended, h.ending⟩
  | callGet howner | returnGet howner =>
    exact h.hostMove hinv h.fault rfl rfl (by rw [howner]; rfl) rfl
  | callSet hfunc | returnSet hfunc =>
    exact h.funcMove hinv rfl h.fault id (fun hpc => by cases hpc) (Or.inl (by rw [hfunc]; decide))
      (by rw [hfunc]; decide)
  | callClear hfunc | returnClear hfunc =>
    exact h.funcMove hinv rfl h.fault id (fun _ => h.ended (by rw [hfunc]; rfl))
      (Or.inl (by rw [hfunc]; decide)) (by rw [hfunc]; decide)

/-- The destructor finds the loop if `start_loop()` has been called, and else there is no thread. -/
theorem Kept.look (h : Kept w) (howner : w.owner = .fresh ∨ w.owner = .ready) :
    Kept { w with owner := if w.monitor.data then .quitting else .ending } := by
  have hinv := h.inv.look howner
  rcases howner with howner | howner
  · have habsent := h.inv.absent (h.inv.fresh howner)
    have hdata : w.monitor.data = false := by
      rw [h.inv.data, habsent.1]
      rfl
    rw [hdata] at hinv ⊢
    exact h.close hinv h.fault rfl rfl rfl fun _ => Or.inl habsent
  · have hdata := (h.alive (by rw [howner]; rfl) (by rw [howner]; rfl)).2
    rw [hdata] at hinv ⊢
    exact h.hostMove hinv h.fault rfl rfl (by rw [howner]; rfl) rfl

/-- `quit()` finds the loop when it sets `quit_`. -/
theorem Kept.setQuit (h : Kept w) (howner : w.owner = .quitting) :
    Kept (w.arrow { w with quit := true, owner := .waking }) := by
  have hinv := h.inv.quit howner
  obtain ⟨halive, hdata⟩ := h.alive (by rw [howner]; rfl) (by rw [howner]; rfl)
  rw [EventLoopThread.arrow, if_pos hdata, EventLoopThread.reach, if_pos halive]
  refine ⟨hinv, h.fault, fun _ => rfl, fun _ => rfl, fun hpc => ?_⟩
  rcases hpc with hpc | hpc <;> cases hpc

theorem Kept.wakeup (h : Kept w) (howner : w.owner = .waking) (halive : w.func.alive = true) :
    Kept (w.reach { w with owner := .closing }) := by
  rw [EventLoopThread.reach, if_pos halive]
  refine h.close (h.inv.wakeup howner) h.fault rfl rfl rfl fun hpc => ?_
  rcases hpc with hpc | hpc <;> cases hpc

/-- Nobody is in the two mutexes when they go. -/
theorem Kept.destroy (h : Kept w) (howner : w.owner = .ending) {t : Thread}
    (hthread : Thread.Step w.thread .destroy t) :
    Kept (w.assert (w.monitor.holder = none) "holder_ == 0" { w with thread := t, owner := .gone }) := by
  have hinv := h.inv.destroy howner hthread
  rw [EventLoopThread.assert, if_pos (decide_eq_true (h.holder_none howner))]
  refine h.close hinv h.fault rfl rfl rfl fun _ => ?_
  cases hthread with
  | destroy _ hout =>
    rw [Thread.assert_true (decide_eq_true (h.inv.thread.holder_none hout))]
    exact h.ending (Or.inl howner)

/-- Any step but a `wakeup()` of a loop that is gone. -/
theorem Kept.step (h : Kept w) {s : LoopThreadEvent} (hstep : (system.restrict Respects).step w s w')
    (hwakeup : s = .wakeup → w.func.alive = true) : Kept w' := by
  obtain ⟨hrespects, hstep⟩ := hstep
  have hinv : Inv w' := h.inv.step hstep
  cases hstep with
  | startLoop _ howner _ =>
    have hfresh : (!w.thread.started) = true := by
      rw [h.inv.fresh howner]
      rfl
    rw [EventLoopThread.assert, if_pos hfresh] at hinv ⊢
    exact h.hostMove hinv h.fault rfl rfl (by rw [howner]; rfl) rfl
  | thread _ hin hthread =>
    have howner := h.inv.starting_of_inStart hin hthread
    have htold : w.owner.told = false := by
      rw [howner]
      rfl
    exact h.hostMove hinv h.fault rfl rfl htold htold
  | started _ howner _ => exact h.hostMove hinv h.fault rfl rfl (by rw [howner]; rfl) rfl
  | monitor _ hfollow hmonitor =>
    rw [h.touch_monitor hfollow hmonitor]
    exact h.monitor hfollow hmonitor
  | construct _ hfunc hrunning =>
    exact h.funcMove hinv rfl h.fault (fun hq => by cases hq) (fun hpc => by cases hpc)
      (Or.inr (by rw [hrunning]; decide)) (by rw [hfunc]; decide)
  | callback _ hfunc =>
    rw [h.touch_eq (by rw [hfunc]; decide) (by rw [hfunc]; decide)] at hinv ⊢
    exact h.funcMove hinv rfl h.fault id (fun hpc => by cases hpc) (Or.inl (by rw [hfunc]; decide))
      (by rw [hfunc]; decide)
  | enter _ hfunc =>
    exact h.funcMove hinv rfl h.fault (fun hq => by cases hq) (fun hpc => by cases hpc)
      (Or.inl (by rw [hfunc]; decide)) (by rw [hfunc]; decide)
  | leave _ hfunc hquit =>
    exact h.funcMove hinv rfl h.fault id (fun _ => hquit) (Or.inl (by rw [hfunc]; decide))
      (by rw [hfunc]; decide)
  | destruct _ hfunc | finish _ hfunc _ =>
    exact h.funcMove hinv rfl h.fault id (fun _ => h.ended (by rw [hfunc]; rfl))
      (Or.inl (by rw [hfunc]; decide)) (by rw [hfunc]; decide)
  | look _ howner => exact h.look howner
  | quit _ howner => exact h.setQuit howner
  | wakeup _ howner => exact h.wakeup howner (hwakeup rfl)
  | join _ howner _ =>
    refine h.close hinv h.fault rfl rfl rfl fun hpc => ?_
    rcases hpc with hpc | hpc <;> cases hpc
  | joined _ howner hthread =>
    cases hthread with
    | joined _ _ hended =>
      exact h.close hinv h.fault rfl rfl rfl fun _ => Or.inr (h.inv.finished.mp hended)
  | destroy _ howner hthread => exact h.destroy howner hthread
  | otherQuit _ _ | otherWakeup _ _ | ownQuit _ _ => exact absurd hrespects id

/-- The destructor is in `quit()`, and the new thread has destroyed the loop. -/
structure Dangled (w : EventLoopThread) : Prop where
  inv : Inv w
  fault : w.fault = some .dangling
  owner : w.owner = .waking
  alive : w.func.alive = false

theorem Kept.dangled (h : Kept w) (hstep : Step w .wakeup w') (halive : w.func.alive = false) :
    Dangled w' := by
  have hinv : Inv w' := h.inv.step hstep
  cases hstep with
  | wakeup _ howner =>
    rw [EventLoopThread.reach, if_neg (by rw [halive]; decide)] at hinv ⊢
    exact ⟨hinv, rfl, howner, halive⟩

theorem Dangled.no_step (h : Dangled w) {s : LoopThreadEvent} (hstep : Step w s w') : False := by
  have hfault := hstep.fault
  rw [h.fault] at hfault
  cases hfault

-- ════════════════════════════════════════════════════════════════════════
-- Coming to rest
-- ════════════════════════════════════════════════════════════════════════

/-- All steps but the calls of the owner, `quit()` by anybody else and wakings for no reason. -/
def cost : LoopThreadEvent → Nat
  | .startLoop | .look | .otherQuit | .otherWakeup | .ownQuit | .monitor (.wake _) => 0
  | .thread s => Thread.cost s
  | .monitor (.call _ _) | .monitor (.inner _) | .monitor (.return _ _ _) | .started | .construct
  | .callback | .enter | .leave | .destruct | .finish | .quit | .wakeup | .join | .joined
  | .destroy => 1

def credit : LoopThreadEvent → Nat
  | .thread s => Thread.credit s
  | .monitor (.wake _) => 4
  | .monitor (.call _ _) | .monitor (.inner _) | .monitor (.return _ _ _) | .startLoop | .look
  | .otherQuit | .otherWakeup | .ownQuit | .started | .construct | .callback | .enter | .leave
  | .destruct | .finish | .quit | .wakeup | .join | .joined | .destroy => 0

def ahead (w : EventLoopThread) : Nat :=
  w.thread.ahead + Monitor.weight w.monitor.phase + w.owner.ahead + w.func.ahead +
    if w.fault = none then 1 else 0

theorem follow_ahead (hfollow : Follow w e w') (hmonitor : Monitor.Step proc may w.monitor e m) :
    ahead { w' with monitor := m } + cost (.monitor e) ≤ w.ahead + credit (.monitor e) := by
  have hweight := hmonitor.weight
  cases hfollow with
  | inner | wake =>
    simp only [Event.cost, Event.credit] at hweight
    simp only [ahead, cost, credit]
    omega
  | callGet hpc | callSet hpc | callClear hpc =>
    have hcall : Monitor.weight m.phase ≤ Monitor.weight w.monitor.phase + 14 := hweight
    simp only [ahead, hpc, HostPc.ahead, FuncPc.ahead, cost, credit]
    omega
  | returnGet hpc | returnSet hpc | returnClear hpc =>
    have hreturn : Monitor.weight m.phase + 1 ≤ Monitor.weight w.monitor.phase := hweight
    simp only [ahead, hpc, HostPc.ahead, FuncPc.ahead, cost, credit]
    omega

theorem ahead_touch (hfault : w.fault = none) {s : LoopThreadEvent} (hcost : cost s ≤ 1)
    (h : w'.ahead + cost s ≤ w.ahead + credit s) :
    (w.touch w').ahead + cost s ≤ w.ahead + credit s := by
  unfold touch
  split
  · simp only [ahead, hfault, if_true, reduceCtorEq, if_false]
    omega
  · exact h

theorem ahead_reach (hfault : w.fault = none) {s : LoopThreadEvent} (hcost : cost s ≤ 1)
    (h : w'.ahead + cost s ≤ w.ahead + credit s) :
    (w.reach w').ahead + cost s ≤ w.ahead + credit s := by
  unfold reach
  split
  · exact h
  · simp only [ahead, hfault, if_true, reduceCtorEq, if_false]
    omega

theorem ahead_arrow (hfault : w.fault = none) {s : LoopThreadEvent} (hcost : cost s ≤ 1)
    (h : w'.ahead + cost s ≤ w.ahead + credit s) :
    (w.arrow w').ahead + cost s ≤ w.ahead + credit s := by
  unfold arrow
  split
  · exact ahead_reach hfault hcost h
  · simp only [ahead, hfault, if_true, reduceCtorEq, if_false]
    omega

theorem Inv.ahead (h : Inv w) {s : LoopThreadEvent} (hstep : Step w s w') :
    w'.ahead + cost s ≤ w.ahead + credit s := by
  cases hstep with
  | @startLoop t hfault howner hthread =>
    have hfresh := h.fresh howner
    have hthrough : t.ahead ≤ w.thread.ahead + 33 :=
      h.thread.ahead (s := ThreadEvent.start) ⟨hfresh, hthread⟩
    rw [EventLoopThread.assert, if_pos (by rw [hfresh]; rfl)]
    simp only [EventLoopThread.ahead, howner, HostPc.ahead, cost, credit]
    omega
  | @thread s t _ hin hthread =>
    have hthrough := h.thread.ahead ⟨Thread.respects_of_inStart hin _, hthread⟩
    simp only [EventLoopThread.ahead, cost, credit]
    omega
  | started _ howner _ =>
    simp only [EventLoopThread.ahead, howner, HostPc.ahead, cost, credit]
    omega
  | @monitor e m w'' hfault hfollow hmonitor =>
    refine ahead_touch hfault ?_ (follow_ahead hfollow hmonitor)
    cases e <;> simp only [cost] <;> omega
  | construct _ hfunc _ =>
    simp only [EventLoopThread.ahead, hfunc, FuncPc.ahead, cost, credit]
    omega
  | callback hfault hfunc =>
    refine ahead_touch hfault le_rfl ?_
    simp only [EventLoopThread.ahead, hfunc, FuncPc.ahead, cost, credit]
    omega
  | enter _ hfunc | leave _ hfunc _ | destruct _ hfunc =>
    simp only [EventLoopThread.ahead, hfunc, FuncPc.ahead, cost, credit]
    omega
  | @finish t _ hfunc hthread =>
    have hthrough : t.ahead ≤ w.thread.ahead :=
      h.thread.ahead (s := ThreadEvent.finish) ⟨trivial, hthread⟩
    simp only [EventLoopThread.ahead, hfunc, FuncPc.ahead, cost, credit]
    omega
  | look _ howner =>
    have hbefore : 5 ≤ w.owner.ahead := by
      rcases howner with howner | howner <;> rw [howner] <;> decide
    have hafter : (if w.monitor.data then HostPc.quitting else .ending).ahead ≤ 5 := by
      split <;> decide
    simp only [EventLoopThread.ahead, cost, credit]
    omega
  | quit hfault howner =>
    refine ahead_arrow hfault le_rfl ?_
    simp only [EventLoopThread.ahead, howner, HostPc.ahead, cost, credit]
    omega
  | wakeup hfault howner =>
    refine ahead_reach hfault le_rfl ?_
    simp only [EventLoopThread.ahead, howner, HostPc.ahead, cost, credit]
    omega
  | @join t _ howner hthread =>
    have hstarted := h.started_of_past (by rw [howner]; rfl)
    have hjoined := h.joined_false (by rw [howner]; rfl)
    have hthrough : t.ahead ≤ w.thread.ahead :=
      h.thread.ahead (s := ThreadEvent.join) ⟨⟨hstarted, hjoined⟩, hthread⟩
    simp only [EventLoopThread.ahead, howner, HostPc.ahead, cost, credit]
    omega
  | @joined t _ howner hthread =>
    have hthrough : t.ahead ≤ w.thread.ahead :=
      h.thread.ahead (s := ThreadEvent.joined) ⟨trivial, hthread⟩
    simp only [EventLoopThread.ahead, howner, HostPc.ahead, cost, credit]
    omega
  | @destroy t hfault howner hthread =>
    have hthrough : t.ahead ≤ w.thread.ahead :=
      h.thread.ahead (s := ThreadEvent.destroy) ⟨trivial, hthread⟩
    unfold EventLoopThread.assert
    split
    · simp only [EventLoopThread.ahead, howner, HostPc.ahead, cost, credit]
      omega
    · simp only [EventLoopThread.ahead, hfault, if_true, reduceCtorEq, if_false, cost, credit]
      omega
  | otherQuit _ _ | ownQuit _ _ => exact le_rfl
  | otherWakeup hfault _ => exact ahead_reach hfault (Nat.zero_le 1) le_rfl

/-- Nothing is left to do but the owner's calls and `quit()` by anybody else. -/
def AtRest (w : EventLoopThread) : Prop := ∀ s w', Step w s w' → cost s = 0

theorem AtRest.no_step (hrest : AtRest w) {s : LoopThreadEvent} (hstep : Step w s w') (hcost : cost s = 1) :
    False := by
  rw [hrest s w' hstep] at hcost
  cases hcost

/-- A thread in the monitor follows its operations there. -/
theorem Inv.follow (h : Inv w) (hmonitor : Monitor.Step proc may w.monitor e m)
    (hcall : ∀ t c, e ≠ .call t c) : ∃ w', Follow w e w' := by
  cases e with
  | call t c => exact (hcall t c rfl).elim
  | inner t => exact ⟨w, .inner⟩
  | wake t => exact ⟨w, .wake⟩
  | «return» t c r =>
    obtain ⟨hphase, _⟩ := hmonitor.of_return
    have hin : (w.monitor.phase t).call = some c := by
      rw [hphase]
      rfl
    cases t with
    | owner =>
      obtain ⟨howner, rfl⟩ := h.section_owner hin
      exact ⟨_, .returnGet howner⟩
    | created =>
      rcases h.section_created hin with ⟨hfunc, rfl⟩ | ⟨hfunc, rfl⟩
      · exact ⟨_, .returnSet hfunc⟩
      · exact ⟨_, .returnClear hfunc⟩

/-- At rest the monitor is, too: whoever is in it waits for the loop. -/
theorem AtRest.quiescent (hrest : AtRest w) (h : Inv w) (hfault : w.fault = none) :
    Quiescent proc may w.monitor := by
  by_contra hnot
  obtain ⟨e, m, hmonitor, hcall, hwake⟩ := exists_step_of_not_quiescent hnot
  obtain ⟨w', hfollow⟩ := h.follow hmonitor hcall
  refine hrest.no_step (.monitor hfault hfollow hmonitor) ?_
  cases e with
  | call t c => exact absurd rfl (hcall t c)
  | wake t => exact absurd rfl (hwake t)
  | inner t | «return» t c r => rfl

/-- At rest the new thread is not there, has ended, or loops with nobody telling it to quit. -/
theorem AtRest.func (hrest : AtRest w) (h : Inv w) (hfault : w.fault = none) :
    w.func = .absent ∧ w.thread.created ≠ .running ∨ w.func = .looping ∧ w.quit = false ∨
      w.func = .finished := by
  have hquiet := hrest.quiescent h hfault
  have hout : w.func.call = none := by
    have hcall : (w.monitor.phase .created).call = w.func.call := congrFun h.calls .created
    rcases hquiet.phase h.exclusive h.alert .created with hphase | ⟨c, hphase, hclosed⟩
    · rw [hphase] at hcall
      exact hcall.symm
    · rcases h.section_created (c := c) (by rw [hphase]; rfl) with ⟨_, rfl⟩ | ⟨_, rfl⟩
      · cases hclosed
      · cases hclosed
  have houtside : w.monitor.phase .created = .outside :=
    Phase.eq_outside ((congrFun h.calls .created).trans hout)
  cases hfunc : w.func with
  | absent =>
    refine Or.inl ⟨rfl, fun hrunning => ?_⟩
    exact hrest.no_step (.construct hfault hfunc hrunning) rfl
  | constructed => exact (hrest.no_step (.callback hfault hfunc) rfl).elim
  | publishing =>
    exact (hrest.no_step (.monitor hfault (.callSet hfunc) (.call houtside (Or.inl rfl))) rfl).elim
  | entering => exact (hrest.no_step (.enter hfault hfunc) rfl).elim
  | looping =>
    refine Or.inr (Or.inl ⟨rfl, ?_⟩)
    by_contra hquit
    exact hrest.no_step (.leave hfault hfunc (Bool.not_eq_false _ ▸ hquit)) rfl
  | retiring =>
    exact (hrest.no_step (.monitor hfault (.callClear hfunc) (.call houtside (Or.inr rfl))) rfl).elim
  | leaving => exact (hrest.no_step (.destruct hfault hfunc) rfl).elim
  | done =>
    have hrunning : w.thread.created = .running :=
      CreatedPc.running_of_counted (h.counted (by rw [hfunc]; decide))
        (h.finished.not.mpr (by rw [hfunc]; decide))
    exact (hrest.no_step (.finish hfault hfunc (.finish h.thread.fault hrunning)) rfl).elim
  | finished => exact Or.inr (Or.inr rfl)
  | setting | clearing =>
    rw [hfunc] at hout
    cases hout

/-- At rest every call of the owner has returned but those that have nothing to wait for. -/
theorem AtRest.owner (hrest : AtRest w) (h : Inv w) (hfault : w.fault = none) :
    w.owner = .fresh ∨ w.owner = .ready ∨ w.owner = .gone ∨
      w.owner = .getting ∧ (w.thread.started = false ∨ w.func = .finished) ∨
      w.owner = .joining ∧ w.func = .looping ∧ w.quit = false := by
  have hfunc := hrest.func h hfault
  have hcall : (w.monitor.phase .owner).call = w.owner.call := congrFun h.calls .owner
  cases howner : w.owner with
  | fresh => exact Or.inl rfl
  | ready => exact Or.inr (Or.inl rfl)
  | gone => exact Or.inr (Or.inr (Or.inl rfl))
  | starting =>
    rcases h.starting howner with hwithin | hback
    · obtain ⟨s, t, hthread, hcost⟩ := h.thread.within_step hwithin
      exact (hrest.no_step (.thread hfault (Thread.inStart_of_cost hcost) hthread) hcost).elim
    · exact (hrest.no_step (.started hfault howner hback) rfl).elim
  | locating =>
    rw [howner] at hcall
    exact (hrest.no_step (.monitor hfault (.callGet howner) (.call (Phase.eq_outside hcall) rfl)) rfl).elim
  | getting =>
    refine Or.inr (Or.inr (Or.inr (Or.inl ⟨rfl, ?_⟩)))
    rw [howner] at hcall
    rcases (hrest.quiescent h hfault).phase h.exclusive h.alert .owner with hphase | ⟨c, hphase, hclosed⟩
    · rw [hphase] at hcall
      cases hcall
    · rw [hphase] at hcall
      cases hcall
      rcases hfunc with ⟨habsent, hrunning⟩ | ⟨hlooping, _⟩ | hfinished
      · -- there is no thread, or it would have a loop to make
        left
        by_contra hstarted
        have hcounted : w.thread.created.counted = true := by
          refine h.thread.passed (Or.inr (Or.inl ⟨?_, Bool.not_eq_false _ ▸ hstarted⟩))
          rw [h.launch (by rw [howner]; decide), howner]
          rfl
        exact hrunning (CreatedPc.running_of_counted hcounted
          (h.finished.not.mpr (by rw [habsent]; decide)))
      · have hshown := h.data
        rw [hlooping, show w.monitor.data = false from hclosed] at hshown
        cases hshown
      · exact Or.inr hfinished
  | quitting => exact (hrest.no_step (.quit hfault howner) rfl).elim
  | waking => exact (hrest.no_step (.wakeup hfault howner) rfl).elim
  | closing =>
    have hout : w.thread.owner = .outside := by
      rw [h.launch (by rw [howner]; decide), howner]
      rfl
    exact (hrest.no_step (.join hfault howner (.join h.thread.fault hout)) rfl).elim
  | joining =>
    refine Or.inr (Or.inr (Or.inr (Or.inr ⟨rfl, ?_⟩)))
    have hpublished := h.seen (Or.inl (by rw [howner]; rfl))
    rcases hfunc with ⟨habsent, _⟩ | hlooping | hfinished
    · rw [habsent] at hpublished
      cases hpublished
    · exact hlooping
    · have hjoining : w.thread.owner = .joining := by
        rw [h.launch (by rw [howner]; decide), howner]
        rfl
      exact (hrest.no_step (.joined hfault howner
        (.joined h.thread.fault hjoining (h.finished.mpr hfinished))) rfl).elim
  | ending =>
    have hout : w.thread.owner = .outside := by
      rw [h.launch (by rw [howner]; decide), howner]
      rfl
    exact (hrest.no_step (.destroy hfault howner (.destroy h.thread.fault hout)) rfl).elim

-- ════════════════════════════════════════════════════════════════════════
-- Runs
-- ════════════════════════════════════════════════════════════════════════

/-- What `start_loop()` has found is the loop. -/
def Got (m : Monitor.State ThreadSide LoopSection Bool (Option Bool)) : Prop :=
  ∀ c r, (m.phase .owner).result = some (c, r) → r = some true

theorem Inv.got (h : Inv w) (hgot : Got w.monitor) (hmonitor : Monitor.Step proc may w.monitor e m) :
    Got m := by
  intro c r hresult
  rcases hmonitor.effect with ⟨_, _, _, hsame⟩ | ⟨t, d, _, hphase, hguard, _, _, hnew, hothers⟩ |
    ⟨t, d, q, _, _, _, _, hnew, hothers⟩
  · exact hgot c r (hsame .owner ▸ hresult)
  · cases t with
    | owner =>
      obtain ⟨_, rfl⟩ := h.section_owner (c := d) (by rw [hphase]; rfl)
      rw [hnew] at hresult
      cases hresult
      exact congrArg some hguard
    | created =>
      rw [hothers .owner (by decide)] at hresult
      exact hgot c r hresult
  · cases t with
    | owner =>
      rw [hnew] at hresult
      cases hresult
    | created =>
      rw [hothers .owner (by decide)] at hresult
      exact hgot c r hresult

/-- What `start_loop()` has returned so far. -/
structure Answered (tr : List LoopThreadEvent) (w : EventLoopThread) : Prop where
  inv : Inv w
  got : Got w.monitor
  returned : ∀ r, .monitor (.return .owner .getLoop r) ∈ tr → r = some true

theorem Answered.step {tr : List LoopThreadEvent} (h : Answered tr w) {s : LoopThreadEvent}
    (hstep : Step w s w') : Answered (tr ++ [s]) w' := by
  have hinv := h.inv.step hstep
  have hother : (∀ e, s ≠ .monitor e) → w'.monitor = w.monitor → Answered (tr ++ [s]) w' := by
    intro hnot hsame
    refine ⟨hinv, hsame ▸ h.got, fun r hr => ?_⟩
    rcases List.mem_append.mp hr with hr | hr
    · exact h.returned r hr
    · exact absurd (List.mem_singleton.mp hr).symm (hnot _)
  cases hstep with
  | @monitor e m w'' _ hfollow hmonitor =>
    refine ⟨hinv, ?_, fun r hr => ?_⟩
    · unfold touch
      split
      · exact h.got
      · exact h.inv.got h.got hmonitor
    · rcases List.mem_append.mp hr with hr | hr
      · exact h.returned r hr
      · cases List.mem_singleton.mp hr
        refine h.got .getLoop r ?_
        rw [hmonitor.of_return.1]
        rfl
  | startLoop _ _ _ =>
    refine hother (fun e heq => by cases heq) ?_
    unfold assert
    split <;> rfl
  | callback _ _ =>
    refine hother (fun e heq => by cases heq) ?_
    unfold touch
    split <;> rfl
  | quit _ _ =>
    refine hother (fun e heq => by cases heq) ?_
    unfold arrow reach
    split
    · split <;> rfl
    · rfl
  | wakeup _ _ | otherWakeup _ _ =>
    refine hother (fun e heq => by cases heq) ?_
    unfold reach
    split <;> rfl
  | destroy _ _ _ =>
    refine hother (fun e heq => by cases heq) ?_
    unfold assert
    split <;> rfl
  | thread _ _ _ | started _ _ _ | construct _ _ _ | enter _ _ | leave _ _ _ | destruct _ _
  | finish _ _ _ | look _ _ | join _ _ _ | joined _ _ _ | otherQuit _ _ | ownQuit _ _ =>
    exact hother (fun e heq => by cases heq) rfl

theorem run_answered {tr : List LoopThreadEvent} (h : system.Run new tr w) : Answered tr w := by
  refine h.trace_invariant ⟨new_inv, fun c r hr => ?_, fun r hr => ?_⟩ fun _ _ _ _ hw hs => hw.step hs
  · cases hr
  · cases hr

/-- The step that destroys the loop, and those after it. -/
theorem Step.destroyed {s : LoopThreadEvent} (h : Step w s w') :
    w'.func.destroyed = true ↔ s = .destruct ∨ w.func.destroyed = true := by
  have hsame : ∀ {u : EventLoopThread}, u.func.destroyed = w.func.destroyed → s ≠ .destruct →
      (u.func.destroyed = true ↔ s = .destruct ∨ w.func.destroyed = true) := by
    intro u hu hs
    rw [hu]
    exact (or_iff_right hs).symm
  cases h with
  | @monitor e m u _ hfollow _ =>
    have hu : u.func.destroyed = w.func.destroyed := by
      cases hfollow with
      | inner | wake | callGet _ | returnGet _ => rfl
      | callSet hfunc | callClear hfunc | returnSet hfunc | returnClear hfunc =>
        rw [hfunc]
        rfl
    refine hsame ?_ (fun hs => by cases hs)
    unfold touch
    split
    · rfl
    · exact hu
  | construct _ hfunc _ | enter _ hfunc | leave _ hfunc _ | finish _ hfunc _ =>
    refine hsame ?_ (fun hs => by cases hs)
    rw [hfunc]
    rfl
  | callback _ hfunc =>
    refine hsame ?_ (fun hs => by cases hs)
    unfold touch
    split
    · rfl
    · rw [hfunc]
      rfl
  | destruct _ _ => exact iff_of_true rfl (Or.inl rfl)
  | startLoop _ _ _ | destroy _ _ _ =>
    refine hsame ?_ (fun hs => by cases hs)
    unfold assert
    split <;> rfl
  | quit _ _ =>
    refine hsame ?_ (fun hs => by cases hs)
    unfold arrow reach
    split
    · split <;> rfl
    · rfl
  | wakeup _ _ | otherWakeup _ _ =>
    refine hsame ?_ (fun hs => by cases hs)
    unfold reach
    split <;> rfl
  | thread _ _ _ | started _ _ _ | look _ _ | join _ _ _ | joined _ _ _ | otherQuit _ _
  | ownQuit _ _ => exact hsame rfl (fun hs => by cases hs)

/-- Once it has been there, the loop is there until it is destroyed. -/
theorem Inv.destroyed_iff (h : Inv w) (hpast : w.owner.past = true) :
    w.func.destroyed = true ↔ w.func.alive = false := by
  have hpublished := h.seen (Or.inl hpast)
  cases hfunc : w.func <;> rw [hfunc] at hpublished <;>
    first
    | exact iff_of_true rfl rfl
    | exact iff_of_false (by decide) (by decide)
    | cases hpublished

/-- The run that has led here, when the destructor alone quits the loop. -/
structure Ordered (tr : List LoopThreadEvent) (w : EventLoopThread) : Prop where
  state : Kept w ∨ Dangled w
  destroyed : w.func.destroyed = true ↔ LoopThreadEvent.destruct ∈ tr
  failed : w.fault ≠ none ↔ [LoopThreadEvent.destruct, .wakeup].Sublist tr

theorem pair_sublist_snoc {α : Type*} {a b c : α} {l : List α} :
    [a, b].Sublist (l ++ [c]) ↔ [a, b].Sublist l ∨ a ∈ l ∧ b = c := by
  constructor
  · intro h
    obtain ⟨l₁, l₂, hsplit, h₁, h₂⟩ := List.sublist_append_iff.mp h
    rcases List.sublist_singleton.mp h₂ with rfl | rfl
    · rw [List.append_nil] at hsplit
      exact Or.inl (hsplit ▸ h₁)
    · have hsame : [a] ++ [b] = l₁ ++ [c] := hsplit
      obtain ⟨rfl, hlast⟩ := List.append_inj' hsame rfl
      exact Or.inr ⟨List.singleton_sublist.mp h₁, List.singleton_inj.mp hlast⟩
  · rintro (h | ⟨ha, rfl⟩)
    · exact List.sublist_append_of_sublist_left h
    · exact (List.singleton_sublist.mpr ha).append (List.Sublist.refl [b])

theorem Ordered.step {tr : List LoopThreadEvent} (h : Ordered tr w) {s : LoopThreadEvent}
    (hstep : (system.restrict Respects).step w s w') : Ordered (tr ++ [s]) w' := by
  rcases h.state with hkept | hdangled
  · have hbefore : ¬[LoopThreadEvent.destruct, .wakeup].Sublist tr :=
      fun hsub => h.failed.mpr hsub hkept.fault
    have hdestroyed : w'.func.destroyed = true ↔ LoopThreadEvent.destruct ∈ tr ++ [s] := by
      rw [hstep.2.destroyed, h.destroyed, List.mem_append, List.mem_singleton, eq_comm, or_comm]
    by_cases hlate : s = .wakeup ∧ w.func.alive = false
    · obtain ⟨rfl, halive⟩ := hlate
      have hdangled := hkept.dangled hstep.2 halive
      have howner : w.owner = .waking := by
        cases hstep.2 with
        | wakeup _ howner => exact howner
      have hgone := (hkept.inv.destroyed_iff (by rw [howner]; rfl)).mpr halive
      refine ⟨Or.inr hdangled, hdestroyed, iff_of_true ?_ ?_⟩
      · rw [hdangled.fault]
        exact Option.some_ne_none _
      · exact pair_sublist_snoc.mpr (Or.inr ⟨h.destroyed.mp hgone, rfl⟩)
    · have hwakeup : s = .wakeup → w.func.alive = true := fun hs => by
        by_contra halive
        exact hlate ⟨hs, Bool.not_eq_true _ ▸ halive⟩
      have hkept' := hkept.step hstep hwakeup
      refine ⟨Or.inl hkept', hdestroyed, iff_of_false (fun hfault => hfault hkept'.fault) fun hsub => ?_⟩
      rcases pair_sublist_snoc.mp hsub with hsub | ⟨hmem, rfl⟩
      · exact hbefore hsub
      · have howner : w.owner = .waking := by
          cases hstep.2 with
          | wakeup _ howner => exact howner
        have hgone := (hkept.inv.destroyed_iff (by rw [howner]; rfl)).mp (h.destroyed.mpr hmem)
        rw [hwakeup rfl] at hgone
        cases hgone
  · exact (hdangled.no_step hstep.2).elim

/-- A step inside `thread_.start()`. -/
theorem thread_snoc {tr : List LoopThreadEvent} {s : ThreadEvent} {t : Thread}
    (h : (system.restrict Respects).Run new tr w) (hthread : Thread.Step w.thread s t)
    (hin : s.inStart = true) (hfault : w.fault = none) :
    (system.restrict Respects).Run new (tr ++ [.thread s]) { w with thread := t } :=
  h.snoc ⟨trivial, .thread hfault hin hthread⟩

/-- An operation of the latch in `thread_`. -/
theorem latch_snoc {tr : List LoopThreadEvent} {t : Thread} {l : CountDownLatch.Latch ThreadSide}
    {e : Monitor.Event ThreadSide LatchCall (Option Int)}
    (h : (system.restrict Respects).Run new tr w)
    (hlatch : Monitor.Step CountDownLatch.proc Thread.may w.thread.latch e l)
    (hfollow : w.thread.follow e = some t) (hthread : w.thread.fault = none) (hfault : w.fault = none) :
    (system.restrict Respects).Run new (tr ++ [.thread (.latch e)])
      { w with thread := if e.thread = .owner then { t with latch := l }
        else w.thread.touch { t with latch := l } } := by
  cases hside : e.thread with
  | owner => exact thread_snoc h (.latchOwner hthread hside hfollow hlatch) rfl hfault
  | created => exact thread_snoc h (.latchCreated hthread hside hfollow hlatch) rfl hfault

/-- `thread_.start()` goes through, the new thread first. -/
theorem started_run : ∃ tr t, (system.restrict Respects).Run new tr
    ⟨t, .start false, .locating, .absent, false, 0, none⟩ ∧ t.fault = none ∧ t.started = true ∧
      t.joined = false ∧ t.owner = .outside ∧ t.created = .running ∧ t.latch.holder = none := by
  have hnil : (system.restrict Respects).Run new [] new := .nil
  have hcreated := thread_snoc (hnil.snoc (l := LoopThreadEvent.startLoop)
    ⟨trivial, .startLoop rfl rfl (.start rfl rfl)⟩) (.create rfl rfl) rfl rfl
  have hstored := thread_snoc (s := ThreadEvent.store 7) hcreated (.store rfl rfl (by decide)) rfl rfl
  have hcounting := latch_snoc (latch_snoc (latch_snoc hstored
    (.call (t := ThreadSide.created) (c := LatchCall.countDown) rfl rfl) rfl rfl rfl)
    (.lock (t := ThreadSide.created) rfl rfl) rfl rfl rfl)
    (.assign (t := ThreadSide.created) rfl) rfl rfl rfl
  have hcounted := latch_snoc (latch_snoc (latch_snoc (latch_snoc hcounting
    (.body (t := ThreadSide.created) rfl rfl) rfl rfl rfl)
    (.notifyAll (t := ThreadSide.created) rfl rfl) rfl rfl rfl)
    (.unassign (t := ThreadSide.created) rfl) rfl rfl rfl)
    (.unlock (t := ThreadSide.created) rfl) rfl rfl rfl
  have hopen := latch_snoc (latch_snoc (latch_snoc hcounted
    (.call (t := ThreadSide.owner) (c := LatchCall.wait) rfl rfl) rfl rfl rfl)
    (.lock (t := ThreadSide.owner) rfl rfl) rfl rfl rfl)
    (.assign (t := ThreadSide.owner) rfl) rfl rfl rfl
  have hpassed := latch_snoc (latch_snoc (latch_snoc (latch_snoc hopen
    (.body (t := ThreadSide.owner) rfl rfl) rfl rfl rfl)
    (.notifyNobody (t := ThreadSide.owner) rfl rfl) rfl rfl rfl)
    (.unassign (t := ThreadSide.owner) rfl) rfl rfl rfl)
    (.unlock (t := ThreadSide.owner) rfl) rfl rfl rfl
  have hback := (thread_snoc hpassed (.check rfl rfl) rfl rfl).snoc (l := LoopThreadEvent.started)
    ⟨trivial, .started rfl rfl rfl⟩
  exact ⟨_, _, hback, rfl, rfl, rfl, rfl, rfl, rfl⟩

/-- Nobody is in the monitor. -/
def idle (data : Bool) (log : List (Entry ThreadSide LoopSection (Option Bool))) :
    Monitor.State ThreadSide LoopSection Bool (Option Bool) where
  data := data
  owner := none
  holder := none
  phase _ := .outside
  log := log

theorem Follow.other (h : Follow w e w') (m : Monitor.State ThreadSide LoopSection Bool (Option Bool)) :
    Follow { w with monitor := m } e { w' with monitor := m } := by
  cases h with
  | inner => exact .inner
  | wake => exact .wake
  | callGet hpc => exact .callGet hpc
  | callSet hpc => exact .callSet hpc
  | callClear hpc => exact .callClear hpc
  | returnGet hpc => exact .returnGet hpc
  | returnSet hpc => exact .returnSet hpc
  | returnClear hpc => exact .returnClear hpc

/-- An operation of the monitor, with the rest of the object as it is. -/
theorem monitor_snoc {tr : List LoopThreadEvent}
    {m m' : Monitor.State ThreadSide LoopSection Bool (Option Bool)}
    (h : (system.restrict Respects).Run new tr { w with monitor := m })
    (hmonitor : Monitor.Step proc may m e m') (hfollow : Follow w e w') (hfault : w.fault = none)
    (hgone : w.owner ≠ .gone) :
    (system.restrict Respects).Run new (tr ++ [.monitor e]) { w' with monitor := m' } := by
  have hstep : Step { w with monitor := m } (.monitor e)
      (EventLoopThread.touch { w with monitor := m } { w' with monitor := m' }) := by
    have hother := Step.monitor (w := { w with monitor := m }) hfault (hfollow.other m) hmonitor
    exact hother
  rw [touch, if_neg hgone] at hstep
  exact h.snoc ⟨trivial, hstep⟩

/-- Nobody is there to be notified. -/
theorem notify_quiet {t : ThreadSide} {c : LoopSection} {r : Option Bool}
    (hphase : m.phase t = .notifying c r) (hquiet : ∀ u d, m.phase u ≠ .asleep d) :
    Monitor.Step proc may m (.inner t) (m.move t (.leaving c r)) := by
  cases c with
  | getLoop | clearLoop => exact .notifyNobody hphase rfl
  | setLoop => exact .notifyNone hphase rfl hquiet

/-- A section that meets nobody goes through. -/
theorem section_run {tr : List LoopThreadEvent} {data : Bool}
    {log : List (Entry ThreadSide LoopSection (Option Bool))} {t : ThreadSide} {c : LoopSection}
    (h : (system.restrict Respects).Run new tr { w with monitor := idle data log }) (hmay : may t c)
    (hguard : (proc c).guard data = true) (hcall : Follow w (.call t c) w')
    (hreturn : Follow w' (.return t c ((proc c).body data).2) w'') (hfault : w.fault = none)
    (hfault' : w'.fault = none) (hgone : w.owner ≠ .gone) (hgone' : w'.owner ≠ .gone) :
    ∃ tr', (system.restrict Respects).Run new
      (tr ++ tr' ++ [.monitor (.return t c ((proc c).body data).2)])
      { w'' with monitor := idle ((proc c).body data).1 (log ++ [⟨t, c, ((proc c).body data).2⟩]) } := by
  have hcalled := monitor_snoc h (.call rfl hmay) hcall hfault hgone
  have hlocked := monitor_snoc hcalled (.lock (move_self _ t _) rfl) .inner hfault' hgone'
  have hassigned := monitor_snoc hlocked (.assign (move_self _ t _)) .inner hfault' hgone'
  have hran := monitor_snoc hassigned (.body (move_self _ t _) hguard) .inner hfault' hgone'
  have hnotified := monitor_snoc hran (notify_quiet (move_self _ t _) fun u d hu => by
    rcases update_cases hu with ⟨_, hp⟩ | ⟨hne, hp⟩
    · cases hp
    · simp [State.move, idle, hne] at hp) .inner hfault' hgone'
  have hleft := monitor_snoc hnotified (.unassign (move_self _ t _)) .inner hfault' hgone'
  have hback := monitor_snoc hleft (.unlock (move_self _ t _)) hreturn hfault' hgone'
  refine ⟨[.monitor (.call t c)] ++ List.replicate 5 (.monitor (.inner t)), ?_⟩
  have hphase : Function.update (fun _ : ThreadSide => (Phase.outside : Phase LoopSection (Option Bool))) t
      .outside = fun _ => .outside := Function.update_eq_self t _
  simpa [State.move, idle, hphase] using hback

/-- `start_loop()`, and `quit()` of the destructor while the thread loops, up to its `wakeup()`. -/
theorem waking_run : ∃ tr t log, (system.restrict Respects).Run new tr
    ⟨t, idle true log, .waking, .looping, true, 0, none⟩ ∧ t.fault = none ∧ t.started = true ∧
      t.joined = false ∧ t.owner = .outside ∧ t.created = .running ∧ t.latch.holder = none ∧
      .monitor (.return .owner .getLoop (some true)) ∈ tr := by
  obtain ⟨tr, t, hstarted, htfault, htstarted, htjoined, htowner, htcreated, hlatch⟩ := started_run
  have hpublishing := (hstarted.snoc (l := LoopThreadEvent.construct)
    ⟨trivial, .construct rfl rfl htcreated⟩).snoc (l := LoopThreadEvent.callback)
      ⟨trivial, .callback rfl rfl⟩
  obtain ⟨tr₁, hset⟩ := section_run (w := ⟨t, .start false, .locating, .publishing, false, 0, none⟩)
    (t := .created) (c := .setLoop) hpublishing (Or.inl rfl) rfl (.callSet rfl) (.returnSet rfl) rfl rfl
    (fun hpc => by cases hpc) fun hpc => by cases hpc
  obtain ⟨tr₂, hgot⟩ := section_run (w := ⟨t, .start false, .locating, .entering, false, 0, none⟩)
    (t := .owner) (c := .getLoop) hset rfl rfl (.callGet rfl) (.returnGet rfl) rfl rfl
    (fun hpc => by cases hpc) fun hpc => by cases hpc
  have hwaking := (((hgot.snoc (l := LoopThreadEvent.enter) ⟨trivial, .enter rfl rfl⟩).snoc
    (l := LoopThreadEvent.look) ⟨trivial, .look rfl (Or.inr rfl)⟩).snoc
      (l := LoopThreadEvent.quit) ⟨trivial, .quit rfl rfl⟩)
  refine ⟨_, t, _, hwaking, htfault, htstarted, htjoined, htowner, htcreated, hlatch, ?_⟩
  simp [proc, getLoop, setLoop]

/-- The destructor gets through. -/
theorem gone_run : ∃ tr w, (system.restrict Respects).Run new tr w ∧ w.owner = .gone ∧
    w.func = .finished ∧ w.fault = none ∧ .monitor (.return .owner .getLoop (some true)) ∈ tr := by
  obtain ⟨tr, t, log, hwaking, htfault, htstarted, htjoined, htowner, htcreated, hlatch, hmem⟩ :=
    waking_run
  have hclosing := hwaking.snoc (l := LoopThreadEvent.wakeup) ⟨trivial, .wakeup rfl rfl⟩
  have hjoin : Thread.Step t .join { t with joined := true, owner := .joining } := by
    have hstep := Thread.Step.join htfault htowner
    rw [Thread.assert_true htstarted, Thread.assert_true (by rw [htjoined]; rfl)] at hstep
    exact hstep
  have hretiring := (hclosing.snoc (l := LoopThreadEvent.join) ⟨trivial, .join rfl rfl hjoin⟩).snoc
    (l := LoopThreadEvent.leave) ⟨trivial, .leave rfl rfl rfl⟩
  obtain ⟨tr', hcleared⟩ := section_run
    (w := ⟨{ t with joined := true, owner := .joining }, .start false, .joining, .retiring, true, 0, none⟩)
    (t := .created) (c := .clearLoop) hretiring (Or.inr rfl) rfl (.callClear rfl) (.returnClear rfl)
    rfl rfl (fun hpc => by cases hpc) fun hpc => by cases hpc
  have hfinished := (hcleared.snoc (l := LoopThreadEvent.destruct) ⟨trivial, .destruct rfl rfl⟩).snoc
    (l := LoopThreadEvent.finish) ⟨trivial, .finish rfl rfl (.finish htfault htcreated)⟩
  have hended := hfinished.snoc (l := LoopThreadEvent.joined)
    ⟨trivial, .joined rfl rfl (.joined htfault rfl rfl)⟩
  have hdestroy : Thread.Step { t with joined := true, owner := .outside, created := .finished }
      .destroy { t with joined := true, owner := .gone, created := .finished } := by
    have hstep := Thread.Step.destroy
      (w := { t with joined := true, owner := .outside, created := .finished }) htfault rfl
    rw [Thread.assert_true (decide_eq_true hlatch)] at hstep
    exact hstep
  have hgone := hended.snoc (l := LoopThreadEvent.destroy) ⟨trivial, .destroy rfl rfl hdestroy⟩
  refine ⟨_, _, hgone, rfl, rfl, rfl, ?_⟩
  simp [hmem]

/-- **`start_loop()` returns a loop.** In every run, whoever quits the loop and whenever:
    `start_loop()` never returns a null pointer; when it has returned, the callback has run and
    `loop_` has been set; and what `loop_` points to is there. -/
theorem start_loop_returns_loop {tr : List LoopThreadEvent} (h : system.Run new tr w) :
    (∀ r, .monitor (.return .owner .getLoop r) ∈ tr → r = some true) ∧
      (w.owner.past = true → w.func.published w.run = true ∧ 0 < w.thread.tid) ∧
      (w.monitor.data = true → w.func.alive = true) := by
  obtain ⟨hinv, _, hreturned⟩ := run_answered h
  refine ⟨hreturned, fun hpast => ⟨hinv.seen (Or.inl hpast), ?_⟩, fun hdata => ?_⟩
  · have hfunc : w.func ≠ .absent := by
      intro habsent
      have hpublished := hinv.seen (Or.inl hpast)
      rw [habsent] at hpublished
      cases hpublished
    exact hinv.thread.tid (CreatedPc.stored_of_counted (hinv.counted hfunc))
  · rw [hinv.data] at hdata
    cases hfunc : w.func <;> rw [hfunc] at hdata <;> first | rfl | cases hdata

theorem start_loop_returns_loop_sample : ∃ (tr : List LoopThreadEvent) (w : EventLoopThread),
    system.Run new tr w ∧ .monitor (.return .owner .getLoop (some true)) ∈ tr ∧
      ∀ r, .monitor (.return .owner .getLoop r) ∈ tr → r = some true := by
  obtain ⟨tr, w, hrun, _, _, _, hmem⟩ := gone_run
  exact ⟨tr, w, hrun.of_restrict, hmem, (start_loop_returns_loop hrun.of_restrict).1⟩

/-- **Coming to rest.** In every run the two threads take at most ninety-one steps, wakings for
    no reason apart and what they cost. When nothing more can happen, each call of the owner
    has returned, but: `start_loop()` waits for ever if `pthread_create` failed, or if somebody
    quit the loop before it looked; and the destructor does if its `quit()` came before
    `loop()` began. -/
theorem stands_still_only_at {tr : List LoopThreadEvent} (h : system.Run new tr w) :
    (tr.map cost).sum ≤ 91 + (tr.map credit).sum ∧
      (w.fault = none → w.AtRest →
        w.owner = .fresh ∨ w.owner = .ready ∨ w.owner = .gone ∨
          w.owner = .getting ∧ (w.thread.started = false ∨ w.func = .finished) ∨
          w.owner = .joining ∧ w.func = .looping ∧ w.quit = false) := by
  have hpaid : w.ahead + (tr.map cost).sum ≤ new.ahead + (tr.map credit).sum :=
    h.cost_le EventLoopThread.ahead (fun _ _ _ hw hs => hw.step hs) (fun _ _ _ hw hs => hw.ahead hs) new_inv
  have hinv : Inv w := h.invariant (fun _ _ _ hw hs => hw.step hs) new_inv
  have hnew : new.ahead = 91 := rfl
  exact ⟨by omega, fun hfault hrest => hrest.owner hinv hfault⟩

/-- When the object is gone, and the new thread too, nothing is left to do. -/
theorem Inv.atRest_of_gone (h : Inv w) (hgone : w.owner = .gone) (hfinished : w.func = .finished) :
    w.AtRest := by
  have hidle := h.phases_idle (by rw [hgone]; rfl) (by rw [hfinished]; rfl)
  intro s w' hstep
  cases hstep with
  | startLoop _ _ _ | look _ _ | otherQuit _ _ | otherWakeup _ _ | ownQuit _ _ => rfl
  | thread _ hin hthread =>
    rw [h.starting_of_inStart hin hthread] at hgone
    cases hgone
  | monitor _ hfollow hmonitor =>
    cases hfollow with
    | wake => rfl
    | inner => exact absurd (hidle _) (hmonitor.inside (fun u c heq => by cases heq))
    | callGet hpc | returnGet hpc =>
      rw [hgone] at hpc
      cases hpc
    | callSet hpc | callClear hpc | returnSet hpc | returnClear hpc =>
      rw [hfinished] at hpc
      cases hpc
  | construct _ hpc _ | callback _ hpc | enter _ hpc | leave _ hpc _ | destruct _ hpc | finish _ hpc _ =>
    rw [hfinished] at hpc
    cases hpc
  | started _ hpc _ | quit _ hpc | wakeup _ hpc | join _ hpc _ | joined _ hpc _ | destroy _ hpc _ =>
    rw [hgone] at hpc
    cases hpc

theorem stands_still_only_at_sample : ∃ (tr : List LoopThreadEvent) (w : EventLoopThread),
    system.Run new tr w ∧ w.fault = none ∧ w.AtRest ∧ w.func = .finished ∧
      (tr.map cost).sum ≤ 91 + (tr.map credit).sum ∧
      (w.owner = .fresh ∨ w.owner = .ready ∨ w.owner = .gone ∨
        w.owner = .getting ∧ (w.thread.started = false ∨ w.func = .finished) ∨
        w.owner = .joining ∧ w.func = .looping ∧ w.quit = false) := by
  obtain ⟨tr, w, hrun, hgone, hfinished, hfault, _⟩ := gone_run
  have hinv : Inv w := hrun.of_restrict.invariant (fun _ _ _ hw hs => hw.step hs) new_inv
  have hrest := hinv.atRest_of_gone hgone hfinished
  obtain ⟨hsteps, howner⟩ := stands_still_only_at hrun.of_restrict
  exact ⟨tr, w, hrun.of_restrict, hfault, hrest, hfinished, hsteps, howner hfault hrest⟩

end EventLoopThread

end DamnWebServer
