import DamnWebServer.Net.TimerThreads

/-!
# What a cancellation is good for

When `cancel_in_loop` runs, the timer may be in the queue, deleted already, in
the expired batch before or after its callback started, or not yet inserted.
`active_timers_` covers the first of these and `canceling_timers_` the callback
that has started: such a timer is *silenced*, and stays so. The other two places
are covered by neither.
-/

namespace DamnWebServer

namespace TimerState

variable {s t : TimerState} {id : TimerID}

/-- Nothing is left of the timer, or its callback has started in the running
    batch and `reset` will delete it. -/
structure Silenced (s : TimerState) (id : TimerID) : Prop where
  created : id.sequence ∈ s.created.map Timer.sequence
  quiet : ∀ a u, s.queue.heap a = some u → u.sequence = id.sequence →
    a = id.timer ∧ ∃ b, s.batch = some b ∧ a ∈ b.ran.map Entry.timer ∧
      a ∉ b.todo.map Entry.timer ∧
      ActiveTimer.mk id.timer id.sequence ∈ s.queue.cancelingTimers

theorem Silenced.add (h : Silenced s id) {a : Nat} {tm : Timer}
    (hnew : tm.sequence ∉ s.created.map Timer.sequence)
    (hheap : t.queue.heap = Function.update s.queue.heap a (some tm))
    (hcancel : t.queue.cancelingTimers = s.queue.cancelingTimers) (hbatch : t.batch = s.batch)
    (hcreated : t.created = s.created ++ [tm]) : Silenced t id where
  created := by
    rw [hcreated, List.map_append]
    exact List.mem_append_left _ h.created
  quiet b u hu hseq := by
    rw [hheap] at hu
    rw [hcancel, hbatch]
    by_cases hba : b = a
    · rw [hba, Function.update_self] at hu
      cases hu
      rw [hseq] at hnew
      exact absurd h.created hnew
    · rw [Function.update_of_ne hba] at hu
      exact h.quiet b u hu hseq

/-- A step that takes timers away or leaves them, and forgets no cancellation. -/
theorem Silenced.shrink (h : Silenced s id)
    (hheap : ∀ a u, t.queue.heap a = some u → s.queue.heap a = some u)
    (hcancel : s.batch ≠ none → ∀ x ∈ s.queue.cancelingTimers, x ∈ t.queue.cancelingTimers)
    (hbatch : t.batch = s.batch) (hcreated : t.created = s.created) : Silenced t id where
  created := hcreated ▸ h.created
  quiet a u hu hseq := by
    obtain ⟨ha, b, hb, hran, htodo, hmem⟩ := h.quiet a u (hheap a u hu) hseq
    have hsome : s.batch ≠ none := by
      rw [hb]
      exact Option.some_ne_none b
    exact ⟨ha, b, hbatch.trans hb, hran, htodo, hcancel hsome _ hmem⟩

theorem Silenced.endRead (h : Silenced s id) {now : Timestamp} {ran : List Entry}
    (hbatch : s.batch = some ⟨now, ran, []⟩)
    (hheap : t.queue.heap = s.queue.heapAfter now (ran.map Entry.timer))
    (hcreated : t.created = s.created) : Silenced t id where
  created := hcreated ▸ h.created
  quiet a u hu hseq := by
    -- what bears the sequence was in the batch, and `reset` has not kept it
    exfalso
    rw [hheap, TimerQueue.heapAfter] at hu
    split at hu
    · obtain ⟨v, hv, hkept⟩ := Option.bind_eq_some_iff.mp hu
      split at hkept
      · rename_i hkeep
        cases hkept
        obtain ⟨ha, b, hb, _, _, hmem⟩ := h.quiet a v hv hseq
        have hvseq : v.sequence = id.sequence := hseq
        apply hkeep.2
        rw [ha, hvseq]
        exact hmem
      · cases hkept
    · rename_i hno
      obtain ⟨_, b, hb, hran, _, _⟩ := h.quiet a u hu hseq
      rw [hbatch] at hb
      cases hb
      exact hno hran

/-- **Step.** A silenced timer stays silenced, and its callback is not started. -/
theorem Silenced.effect (h : Silenced s id) {l : TimerStep} (heff : Effect s l t) :
    Silenced t id ∧ ∃ more, t.fired = s.fired ++ more ∧ ∀ f ∈ more, f.sequence ≠ id.sequence := by
  have hsame : ∀ x : List Firing, ∃ more, x = x ++ more ∧ ∀ f ∈ more, f.sequence ≠ id.sequence :=
    fun x => ⟨[], (List.append_nil x).symm, nofun⟩
  cases heff with
  | addTimer _ hnew hheap _ hcancel => exact ⟨h.add hnew hheap hcancel rfl rfl, hsame _⟩
  | cancelFound _ _ _ hheap _ hcancel =>
    refine ⟨h.shrink ?_ ?_ rfl rfl, hsame _⟩
    · intro a u hu
      rw [hheap] at hu
      exact (TimerQueue.heap_remove_eq_some.mp hu).2
    · intro _ x hx
      rw [hcancel]
      exact hx
  | cancelUnknown hheap _ hcancel =>
    refine ⟨h.shrink ?_ ?_ rfl rfl, hsame _⟩
    · intro a u hu
      rw [← hheap]
      exact hu
    · intro hbatch x hx
      exact (hcancel x hbatch).mpr (Or.inr hx)
  | beginRead hidle hheap _ _ =>
    refine ⟨⟨h.created, ?_⟩, hsame _⟩
    intro a u hu hseq
    rw [hheap] at hu
    obtain ⟨_, b, hb, _⟩ := h.quiet a u hu hseq
    rw [hidle] at hb
    cases hb
  | @runNext now ran todo e tm hbatch hlive =>
    refine ⟨⟨h.created, ?_⟩, [⟨tm.sequence, now⟩], rfl, ?_⟩
    · intro a u hu hseq
      obtain ⟨ha, b, hb, hran, htodo, hmem⟩ := h.quiet a u hu hseq
      rw [hbatch] at hb
      cases hb
      refine ⟨ha, _, rfl, ?_, ?_, hmem⟩
      · rw [List.map_append]
        exact List.mem_append_left _ hran
      · intro hin
        exact htodo (List.mem_cons_of_mem _ hin)
    · intro f hf
      rw [List.mem_singleton] at hf
      subst hf
      intro hseq
      obtain ⟨_, b, hb, _, htodo, _⟩ := h.quiet e.timer tm hlive hseq
      rw [hbatch] at hb
      cases hb
      exact htodo List.mem_cons_self
  | endRead hbatch hheap => exact ⟨h.endRead hbatch hheap rfl, hsame _⟩

/-- `cancel_in_loop` silences a timer that is not out of the queue, or only in the
    part of the batch that has been run. -/
theorem silenced_of_cancel {away : List Nat} (h : Holding s away)
    (hcreated : id.sequence ∈ s.created.map Timer.sequence)
    (hplaced : ∀ a u, s.queue.heap a = some u → u.sequence = id.sequence → a = id.timer)
    (haway : ∀ u, s.queue.heap id.timer = some u → u.sequence = id.sequence → id.timer ∉ away)
    (htodo : ∀ b u, s.batch = some b → s.queue.heap id.timer = some u →
      u.sequence = id.sequence → id.timer ∉ b.todo.map Entry.timer)
    (hnext : s.next (.cancel id) = .ok t) : Silenced t id := by
  by_cases hwaits : s.Waits away id
  · obtain ⟨t', hok, heff, hhold, hheap, _⟩ := cancel_found h hwaits
    rw [hok] at hnext
    cases hnext
    refine ⟨?_, ?_⟩
    · cases heff <;> exact hcreated
    · intro a u hu hseq
      rw [hheap] at hu
      obtain ⟨hne, hu⟩ := TimerQueue.heap_remove_eq_some.mp hu
      exact absurd (hplaced a u hu hseq) hne
  · obtain ⟨t', hok, heff, hhold, hheap, hbatch, hcancel⟩ := cancel_unknown h hwaits
    rw [hok] at hnext
    cases hnext
    refine ⟨?_, ?_⟩
    · cases heff <;> exact hcreated
    · intro a u hu hseq
      rw [hheap] at hu
      have ha := hplaced a u hu hseq
      subst ha
      -- it is out of the queue, so in the part of the batch that has been run
      have hout : id.timer ∈ s.out := by
        by_contra hno
        refine hwaits ⟨u, hu, ?_, hseq⟩
        rw [List.mem_append, not_or]
        exact ⟨hno, haway u hu hseq⟩
      cases hb : s.batch with
      | none =>
        rw [out, hb] at hout
        cases hout
      | some b =>
        have hleft := htodo b u hb hu hseq
        rw [out, hb] at hout
        change id.timer ∈ (b.ran ++ b.todo).map Entry.timer at hout
        rw [List.map_append, List.mem_append] at hout
        exact ⟨rfl, b, hbatch.trans hb, hout.resolve_right hleft, hleft,
          hcancel (by rw [hb]; exact Option.some_ne_none b)⟩

end TimerState

namespace SharedTimers

variable {s t : SharedTimers} {id : TimerID}

/-- Every `Timer_ID` that was returned has the address of its timer, as long as
    there is one with its sequence. -/
def Placed (s : SharedTimers) (id : TimerID) : Prop :=
  id.sequence ∈ s.timers.created.map Timer.sequence ∧
    ∀ a u, s.timers.queue.heap a = some u → u.sequence = id.sequence → a = id.timer

theorem Lives.placed (h : s.timers.Holding s.away) (hlives : s.Lives id) : s.Placed id := by
  obtain ⟨v, hv, hvseq⟩ := hlives
  refine ⟨hvseq ▸ h.ledger.live _ v hv, ?_⟩
  intro a u hu hseq
  exact h.ledger.unique a id.timer u v hu hv (hseq.trans hvseq.symm)

/-- The timers after a step are those before it, and at most a new one. -/
theorem heap_of_effect {s t : TimerState} {l : TimerStep} (heff : TimerState.Effect s l t)
    {a : Nat} {u : Timer} (hu : t.queue.heap a = some u) :
    (∃ v, s.queue.heap a = some v ∧ v.sequence = u.sequence) ∨
      u.sequence ∉ s.created.map Timer.sequence := by
  cases heff with
  | @addTimer b tm clock q hfree hnew hheap hdeleted hcancel =>
    rw [hheap] at hu
    by_cases hab : a = b
    · rw [hab, Function.update_self] at hu
      cases hu
      exact Or.inr hnew
    · rw [Function.update_of_ne hab] at hu
      exact Or.inl ⟨u, hu, rfl⟩
  | cancelFound _ _ _ hheap _ _ =>
    rw [hheap] at hu
    exact Or.inl ⟨u, (TimerQueue.heap_remove_eq_some.mp hu).2, rfl⟩
  | cancelUnknown hheap _ _ => exact Or.inl ⟨u, (congrFun hheap a).symm.trans hu, rfl⟩
  | beginRead _ hheap _ _ => exact Or.inl ⟨u, (congrFun hheap a).symm.trans hu, rfl⟩
  | runNext _ _ => exact Or.inl ⟨u, hu, rfl⟩
  | endRead _ hheap =>
    rw [hheap, TimerQueue.heapAfter] at hu
    split at hu
    · obtain ⟨v, hv, hkept⟩ := Option.bind_eq_some_iff.mp hu
      split at hkept
      · cases hkept
        exact Or.inl ⟨v, hv, rfl⟩
      · cases hkept
    · exact Or.inl ⟨u, hu, rfl⟩

theorem Placed.of_heap (h : s.Placed id)
    (hcreated : ∀ n ∈ s.timers.created.map Timer.sequence, n ∈ t.timers.created.map Timer.sequence)
    (hheap : ∀ a u, t.timers.queue.heap a = some u →
      (∃ v, s.timers.queue.heap a = some v ∧ v.sequence = u.sequence) ∨
        u.sequence ∉ s.timers.created.map Timer.sequence) : t.Placed id := by
  refine ⟨hcreated _ h.1, ?_⟩
  intro a u hu hseq
  rcases hheap a u hu with ⟨v, hv, hvseq⟩ | hnew
  · exact h.2 a v hv (hvseq.trans hseq)
  · rw [hseq] at hnew
    exact absurd h.1 hnew

theorem Placed.step (h : s.Placed id) {l : ThreadStep} (hmoves : Moves s l t) : t.Placed id := by
  cases hmoves with
  | loop _ _ heff =>
    exact h.of_heap (created_of_effect heff) fun a u hu => heap_of_effect heff hu
  | insert _ _ hheap _ =>
    refine h.of_heap (fun n hn => hn) ?_
    intro a u hu
    exact Or.inl ⟨u, (congrFun hheap a).symm.trans hu, rfl⟩
  | cancel _ _ _ heff =>
    exact h.of_heap (created_of_effect heff) fun a u hu => heap_of_effect heff hu
  | @newTimer b tm hnull hfree hnew =>
    refine h.of_heap ?_ ?_
    · intro n hn
      rw [List.map_append]
      exact List.mem_append_left _ hn
    · intro a u hu
      by_cases hab : a = b
      · have hself : (s.timers.queue.store b tm).heap b = some tm := Function.update_self b _ _
        change (s.timers.queue.store b tm).heap a = some u at hu
        rw [hab, hself] at hu
        cases hu
        exact Or.inr hnew
      · exact Or.inl ⟨u, (Function.update_of_ne hab _ _).symm.trans hu, rfl⟩
  | queueAdd _ => exact h
  | readSequence _ _ => exact h
  | queueCancel _ => exact h

/-- What is kept about the returned `Timer_ID`s. -/
structure Recorded (s : SharedTimers) : Prop where
  holding : s.timers.Holding s.away
  placed : ∀ id ∈ s.returned.map Prod.snd, s.Placed id

theorem Recorded.step (h : Recorded s) {l : ThreadStep} (hstep : system.step s l t) :
    Recorded t := by
  obtain ⟨hmoves, hhold⟩ := step_moves h.holding hstep
  refine ⟨hhold, ?_⟩
  intro id hid
  -- an old one keeps its place, a new one is of a timer that is there
  suffices hcases : id ∈ s.returned.map Prod.snd ∨ t.Lives id by
    rcases hcases with hold | hlives
    · exact (h.placed id hold).step hmoves
    · exact hlives.placed hhold
  cases hmoves with
  | @loop l timers hl hlegal heff =>
    rw [List.map_append, List.mem_append] at hid
    refine hid.imp (fun h => h) ?_
    intro hnew
    cases heff with
    | addTimer _ _ hheap _ _ =>
      rw [returns, List.map_singleton, List.mem_singleton] at hnew
      subst hnew
      refine ⟨_, ?_, rfl⟩
      rw [hheap]
      exact Function.update_self _ _ _
    | cancelFound _ _ _ _ _ _ => cases hnew
    | cancelUnknown _ _ _ => cases hnew
    | beginRead _ _ _ _ => cases hnew
    | runNext _ _ => cases hnew
    | endRead _ _ => cases hnew
  | insert _ _ _ _ => exact Or.inl hid
  | cancel _ _ _ _ => exact Or.inl hid
  | newTimer _ _ _ => exact Or.inl hid
  | queueAdd _ => exact Or.inl hid
  | @readSequence call tm hcall hlive =>
    rw [List.map_append, List.mem_append] at hid
    refine hid.imp (fun h => h) ?_
    intro hnew
    rw [List.map_singleton, List.mem_singleton] at hnew
    subst hnew
    exact ⟨tm, hlive, rfl⟩
  | queueCancel _ => exact Or.inl hid

theorem reachable_recorded (h : system.Reachable s) : Recorded s := by
  apply h.invariant
  · rintro _ rfl
    exact ⟨new_holding, nofun⟩
  · intro s l t hs hstep
    exact hs.step hstep

-- ════════════════════════════════════════════════════════════════════════
-- Cancellation along runs
-- ════════════════════════════════════════════════════════════════════════

/-- The callback of the timer is not started in any continuation. -/
def Stopped (s : SharedTimers) (id : TimerID) : Prop :=
  ∀ tr t, system.Run s tr t → ∃ more, t.timers.fired = s.timers.fired ++ more ∧
    ∀ f ∈ more, f.sequence ≠ id.sequence

/-- The step runs `cancel_in_loop(id)`: at once in the loop's own thread, or as
    the next functor. -/
def Executes (s : SharedTimers) (l : ThreadStep) (id : TimerID) : Prop :=
  l = .loop (.cancel id) ∨
    ∃ clock rest, l = .runFunctor clock ∧ s.functors = .cancelInLoop id :: rest

/-- `add_timer_in_loop` has not run for the timer. -/
def NotInserted (s : SharedTimers) (id : TimerID) : Prop :=
  s.Lives id ∧ id.timer ∈ s.away

/-- The timer is in the expired batch, and its callback has not been started. -/
def StillToRun (s : SharedTimers) (id : TimerID) : Prop :=
  s.Lives id ∧ ∃ b, s.timers.batch = some b ∧ id.timer ∈ b.todo.map Entry.timer

theorem silenced_step (h : s.timers.Silenced id) {l : ThreadStep} (hmoves : Moves s l t) :
    t.timers.Silenced id ∧ ∃ more, t.timers.fired = s.timers.fired ++ more ∧
      ∀ f ∈ more, f.sequence ≠ id.sequence := by
  have hsame : ∃ more, s.timers.fired = s.timers.fired ++ more ∧
      ∀ f ∈ more, f.sequence ≠ id.sequence := ⟨[], (List.append_nil _).symm, nofun⟩
  cases hmoves with
  | loop _ _ heff => exact h.effect heff
  | insert _ _ hheap hcancel =>
    refine ⟨h.shrink ?_ ?_ rfl rfl, hsame⟩
    · intro a u hu
      exact (congrFun hheap a).symm.trans hu
    · intro _ x hx
      rw [hcancel]
      exact hx
  | cancel _ _ _ heff => exact h.effect heff
  | newTimer _ _ hnew => exact ⟨h.add hnew rfl rfl rfl rfl, hsame⟩
  | queueAdd _ => exact ⟨h, hsame⟩
  | readSequence _ _ => exact ⟨h, hsame⟩
  | queueCancel _ => exact ⟨h, hsame⟩

/-- **Run.** A silenced timer is stopped for good. -/
theorem stopped_of_silenced (hrec : Recorded s) (h : s.timers.Silenced id) : s.Stopped id := by
  intro tr t hrun
  have hall : (t.timers.Silenced id ∧ ∃ more, t.timers.fired = s.timers.fired ++ more ∧
      ∀ f ∈ more, f.sequence ≠ id.sequence) ∧ Recorded t := by
    induction hrun with
    | nil => exact ⟨⟨h, [], (List.append_nil _).symm, nofun⟩, hrec⟩
    | snoc hrun hstep ih =>
      obtain ⟨⟨hsil, more, hfired, hne⟩, hr⟩ := ih
      obtain ⟨hmoves, _⟩ := step_moves hr.holding hstep
      obtain ⟨hsil', more', hfired', hne'⟩ := silenced_step hsil hmoves
      refine ⟨⟨hsil', more ++ more', ?_, ?_⟩, hr.step hstep⟩
      · rw [hfired', hfired, List.append_assoc]
      · intro f hf
        rcases List.mem_append.mp hf with hf | hf
        · exact hne f hf
        · exact hne' f hf
  exact hall.1.2

/-- Both ways to run `cancel_in_loop` do the same to the timers. -/
theorem Executes.next_cancel (hrec : Recorded s) {l : ThreadStep} (h : s.Executes l id)
    (hstep : system.step s l t) : s.timers.next (.cancel id) = .ok t.timers := by
  obtain ⟨timers, hok, _⟩ := TimerState.cancel_spec hrec.holding id
  rcases h with rfl | ⟨clock, rest, rfl, hfunctors⟩
  · have hnext := hstep.2
    simp only [next, hok, bind, Except.bind] at hnext
    cases hnext
    exact hok
  · have hnext := hstep.2
    simp only [next, hfunctors, hok, bind, Except.bind] at hnext
    cases hnext
    exact hok

/-- **A cancellation is effective.** In every run, after `cancel_in_loop` has run
    for a `Timer_ID` that `add_timer` returned, the callback is not started again,
    if by then the timer had been inserted and its callback was not one that the
    running batch has still to start. -/
theorem cancel_stops (h : system.Reachable s) (hid : id ∈ s.returned.map Prod.snd)
    {l : ThreadStep} (hexec : s.Executes l id) (hinserted : ¬ s.NotInserted id)
    (hstarted : ¬ s.StillToRun id) (hstep : system.step s l t) : t.Stopped id := by
  have hrec := reachable_recorded h
  obtain ⟨hcreated, hplaced⟩ := hrec.placed id hid
  apply stopped_of_silenced (hrec.step hstep)
  apply TimerState.silenced_of_cancel hrec.holding hcreated hplaced
  · intro u hu hseq haway
    exact hinserted ⟨⟨u, hu, hseq⟩, haway⟩
  · intro b u hb hu hseq htodo
    exact hstarted ⟨⟨u, hu, hseq⟩, b, hb, htodo⟩
  · exact hexec.next_cancel hrec hstep

theorem step_of_after {l : ThreadStep} (h : s.after [l] = some t) : system.step s l t := by
  obtain ⟨u, hstep, hrun⟩ := (run_of_after h).of_cons
  cases hrun.of_nil
  exact hstep

theorem cancel_stops_own_callback :
    ∃ s t : SharedTimers, system.Reachable s ∧ s.timers.fired = [⟨0, 5⟩] ∧
      s.Executes (.loop (.cancel ⟨8, 0⟩)) ⟨8, 0⟩ ∧ system.step s (.loop (.cancel ⟨8, 0⟩)) t ∧
      t.Stopped ⟨8, 0⟩ := by
  -- a repeating timer cancels itself in its callback
  let tr : List ThreadStep :=
    [.loop (.addTimer 8 ⟨5, 10, true, 0⟩ 1), .loop (.beginRead 5), .loop .runNext]
  have hval : ((new.after tr).bind fun s => (s.after [.loop (.cancel ⟨8, 0⟩)]).map fun _ =>
      (s.timers.fired, s.returned.map Prod.snd, s.away,
        s.timers.batch.map fun b => b.todo.map Entry.timer)) =
      some ([⟨0, 5⟩], [⟨8, 0⟩], [], some []) := by
    decide +kernel
  obtain ⟨s, hs, hval⟩ := Option.bind_eq_some_iff.mp hval
  obtain ⟨t, ht, heq⟩ := Option.map_eq_some_iff.mp hval
  simp only [Prod.mk.injEq] at heq
  obtain ⟨hfired, hret, haway, htodo⟩ := heq
  have hreach : system.Reachable s := ⟨new, tr, rfl, run_of_after hs⟩
  refine ⟨s, t, hreach, hfired, Or.inl rfl, step_of_after ht,
    cancel_stops hreach ?_ (Or.inl rfl) ?_ ?_ (step_of_after ht)⟩
  · rw [hret]
    exact List.mem_singleton_self _
  · rintro ⟨_, hmem⟩
    rw [haway] at hmem
    cases hmem
  · rintro ⟨_, b, hb, hmem⟩
    rw [hb] at htodo
    have hnil : b.todo.map Entry.timer = [] := Option.some.inj htodo
    rw [hnil] at hmem
    cases hmem

theorem not_stopped {tr : List ThreadStep} (h : s.after tr = some t) {f : Firing}
    (hf : f ∈ t.timers.fired.drop s.timers.fired.length) (hseq : f.sequence = id.sequence) :
    ¬ s.Stopped id := by
  intro hstop
  obtain ⟨more, hfired, hne⟩ := hstop tr t (run_of_after h)
  rw [hfired, List.drop_left] at hf
  exact hne f hf hseq

/-- A timer that is due in the same batch is run although the callback before it
    has cancelled it, and a timer that another thread has added is run although it
    was cancelled before its functor was. -/
theorem cancel_does_not_stop :
    (∃ s l t id, system.Reachable s ∧ id ∈ s.returned.map Prod.snd ∧ s.Executes l id ∧
      system.step s l t ∧ s.StillToRun id ∧ ¬ t.Stopped id) ∧
    ∃ s l t id, system.Reachable s ∧ id ∈ s.returned.map Prod.snd ∧ s.Executes l id ∧
      system.step s l t ∧ s.NotInserted id ∧ ¬ t.Stopped id := by
  constructor
  · let tr : List ThreadStep :=
      [.loop (.addTimer 8 ⟨5, 0, false, 0⟩ 1), .loop (.addTimer 16 ⟨5, 0, false, 1⟩ 1),
        .loop (.beginRead 5), .loop .runNext]
    have hval : ((new.after tr).bind fun s => (s.after [.loop (.cancel ⟨16, 1⟩)]).bind fun t =>
        (t.after [.loop .runNext]).map fun u =>
          (s.returned.map Prod.snd, s.timers.queue.heap 16,
            s.timers.batch.map fun b => b.todo.map Entry.timer,
            u.timers.fired.drop t.timers.fired.length)) =
        some ([⟨8, 0⟩, ⟨16, 1⟩], some ⟨5, 0, false, 1⟩, some [16], [⟨1, 5⟩]) := by
      decide +kernel
    obtain ⟨s, hs, hval⟩ := Option.bind_eq_some_iff.mp hval
    obtain ⟨t, ht, hval⟩ := Option.bind_eq_some_iff.mp hval
    obtain ⟨u, hu, heq⟩ := Option.map_eq_some_iff.mp hval
    simp only [Prod.mk.injEq, Option.map_eq_some_iff] at heq
    obtain ⟨hret, hheap, ⟨b, hb, htodo⟩, hfired⟩ := heq
    refine ⟨s, _, t, ⟨16, 1⟩, ⟨new, tr, rfl, run_of_after hs⟩, ?_, Or.inl rfl, step_of_after ht,
      ⟨⟨_, hheap, rfl⟩, b, hb, ?_⟩, not_stopped hu (f := ⟨1, 5⟩) ?_ rfl⟩
    · rw [hret]
      exact List.mem_cons_of_mem _ (List.mem_singleton_self _)
    · rw [htodo]
      exact List.mem_singleton_self _
    · rw [hfired]
      exact List.mem_singleton_self _
  · let tr : List ThreadStep :=
      [.newTimer 8 ⟨5, 0, false, 0⟩, .queueAdd ⟨8, 0⟩, .readSequence ⟨8, 0⟩]
    have hval : ((new.after tr).bind fun s => (s.after [.loop (.cancel ⟨8, 0⟩)]).bind fun t =>
        (t.after [.runFunctor 1, .loop (.beginRead 5), .loop .runNext]).map fun u =>
          (s.returned.map Prod.snd, s.timers.queue.heap 8, s.away,
            u.timers.fired.drop t.timers.fired.length)) =
        some ([⟨8, 0⟩], some ⟨5, 0, false, 0⟩, [8], [⟨0, 5⟩]) := by
      decide +kernel
    obtain ⟨s, hs, hval⟩ := Option.bind_eq_some_iff.mp hval
    obtain ⟨t, ht, hval⟩ := Option.bind_eq_some_iff.mp hval
    obtain ⟨u, hu, heq⟩ := Option.map_eq_some_iff.mp hval
    simp only [Prod.mk.injEq] at heq
    obtain ⟨hret, hheap, haway, hfired⟩ := heq
    refine ⟨s, _, t, ⟨8, 0⟩, ⟨new, tr, rfl, run_of_after hs⟩, ?_, Or.inl rfl, step_of_after ht,
      ⟨⟨_, hheap, rfl⟩, ?_⟩, not_stopped hu (f := ⟨0, 5⟩) ?_ rfl⟩
    · rw [hret]
      exact List.mem_singleton_self _
    · rw [haway]
      exact List.mem_singleton_self _
    · rw [hfired]
      exact List.mem_singleton_self _

end SharedTimers

end DamnWebServer
