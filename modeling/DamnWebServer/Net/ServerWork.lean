import DamnWebServer.Net.ServerBooks
import DamnWebServer.Lib.Potential

/-!
# The work of the server

What the loops still have to do is a number: every task leads to a bounded number of
steps, through the handlers it calls and the functors it queues, wherever they are
queued. A step of a loop takes one off that number, and only an event that `epoll_wait`
reports or a functor of the user adds to it. So the loops do a bounded amount of work
for every event, and when the events stop they come to rest.
-/

namespace DamnWebServer

/-- The steps from a task on top of a stack to its end, with all that comes of it. -/
def ServerTask.effort : ServerTask → Nat
  | .userCode | .channelRemove _ | .callback _ .error | .callback _ .write => 1
  | .connectEstablished _ => 2
  | .connectDestroyed _ => 3
  | .acceptorHandleRead => 7
  | .removeConnectionInLoop _ => 8
  | .closeCallback _ => 13
  | .handleClose _ => 15
  | .callback _ .read | .callback _ .close => 16
  | .handleEvent _ _ => 35

/-- What an event of `epoll_wait` is worth. -/
def Ready.credit : Ready → Nat
  | .registered _ _ => 36
  | .listening => 8
  | .other => 2

/-- What a step brings in: a poll what it reports, and a functor of the user. -/
def ServerStep.credit : ServerStep → Nat
  | .poll _ ready => 3 + (ready.map Ready.credit).sum
  | .userFunctor _ => 5
  | .next _ | .swap _ | .again _ | .run _ _ | .call _ _ _ | .userReturn _ => 0

/-- The steps of the loops count, the calls of the user's code do not. -/
def ServerStep.cost : ServerStep → Nat
  | .call _ _ _ | .userFunctor _ => 0
  | .poll _ _ | .next _ | .swap _ | .again _ | .run _ _ | .userReturn _ => 1

def effortOf (ts : List ServerTask) : Nat := (ts.map ServerTask.effort).sum

@[simp] theorem effortOf_nil : effortOf [] = 0 := rfl

@[simp] theorem effortOf_cons (t : ServerTask) (ts : List ServerTask) :
    effortOf (t :: ts) = t.effort + effortOf ts := rfl

@[simp] theorem effortOf_append (ts us : List ServerTask) :
    effortOf (ts ++ us) = effortOf ts + effortOf us := by
  rw [effortOf, List.map_append, List.sum_append]
  rfl

/-- The callbacks of one event, at most one of each kind. -/
theorem effortOf_handleEvent (c : Nat) (revents : PollMask) :
    effortOf ((Channel.handleEvent revents).map (.callback c)) + 1 ≤
      (ServerTask.handleEvent c revents).effort := by
  simp only [Channel.handleEvent, List.map_append, effortOf_append]
  cases revents.pollhup && !revents.pollin <;> cases revents.pollerr || revents.pollnval <;>
    cases revents.pollin || revents.pollpri || revents.pollrdhup <;> cases revents.pollout <;>
    simp [ServerTask.effort]

namespace ServerLoop

/-- The moves from one phase to the next until the loop polls with nothing queued. -/
def moves (s : ServerLoop) : Nat :=
  match s.phase with
  | .polling => if s.pending = [] then 0 else 3
  | .handling _ => 2
  | .functors _ => if s.pending = [] then 1 else 4

/-- A task that is not on the stack takes one more step to get there. -/
def effort (s : ServerLoop) : Nat :=
  effortOf s.tasks + s.phase.tasks.length + s.pending.length + s.moves

/-- Another stack. -/
theorem effort_stack {s s' : ServerLoop} (hphase : s'.phase = s.phase)
    (hpending : s'.pending = s.pending) :
    s'.effort + effortOf s.stack = s.effort + effortOf s'.stack := by
  simp only [effort, tasks, moves, effortOf_append, hphase, hpending]
  omega

theorem moves_append_le (s : ServerLoop) (ts : List ServerTask) :
    ({ s with pending := s.pending ++ ts } : ServerLoop).moves ≤ s.moves + 3 := by
  simp only [moves]
  cases s.phase with
  | handling active => exact Nat.le_add_right 2 3
  | polling | functors batch =>
    by_cases hpending : s.pending = [] <;> by_cases hts : ts = [] <;> simp [hpending, hts]

theorem effort_queue_le (s : ServerLoop) (t : ServerTask) :
    ({ s with pending := s.pending ++ [t] } : ServerLoop).effort ≤ s.effort + (t.effort + 4) := by
  have hmoves := moves_append_le s [t]
  have htasks : effortOf ({ s with pending := s.pending ++ [t] } : ServerLoop).tasks =
      effortOf s.tasks + t.effort := by
    simp only [tasks, effortOf_append, effortOf_cons, effortOf_nil]
    omega
  rw [effort, htasks, effort, List.length_append, List.length_singleton]
  show _ + s.phase.tasks.length + _ + _ ≤ _
  omega

end ServerLoop

namespace ServerState

variable {w w' : ServerState} {c l : Nat}

/-- What the loops have to do before they are at rest. -/
def effort (w : ServerState) : Nat := ∑ l ∈ Finset.range (w.numThreads + 1), (w.loops l).effort

-- ════════════════════════════════════════════════════════════════════════
-- What the operations on the state add
-- ════════════════════════════════════════════════════════════════════════

theorem setLoop_effort (hl : l ≤ w.numThreads) (s : ServerLoop) :
    (w.setLoop l s).effort + (w.loops l).effort = w.effort + s.effort := by
  have hmem : l ∈ Finset.range (w.numThreads + 1) := Finset.mem_range.mpr (Nat.lt_succ_of_le hl)
  have hupdate : (fun k => ((w.setLoop l s).loops k).effort) =
      Function.update (fun k => (w.loops k).effort) l s.effort := by
    funext k
    by_cases hk : k = l
    · subst hk
      rw [setLoop_self, Function.update_self]
    · rw [setLoop_of_ne w s hk, Function.update_of_ne hk]
  show (∑ k ∈ Finset.range (w.numThreads + 1), ((w.setLoop l s).loops k).effort) + _ = _
  rw [hupdate, Finset.sum_update_of_mem hmem, effort, Finset.sum_eq_add_sum_sdiff_singleton_of_mem hmem]
  omega

/-- Wherever the loop is, it adds no more than its own share. -/
theorem setLoop_effort_le {s : ServerLoop} {n : Nat} (h : s.effort ≤ (w.loops l).effort + n) :
    (w.setLoop l s).effort ≤ w.effort + n := by
  by_cases hl : l ≤ w.numThreads
  · have heq := setLoop_effort hl s
    omega
  · have hsame : (w.setLoop l s).effort = w.effort := by
      refine Finset.sum_congr rfl fun k hk => ?_
      have hlt : k < w.numThreads + 1 := Finset.mem_range.mp hk
      rw [setLoop_of_ne w s (by omega)]
    omega

/-- The loop with another stack. -/
theorem setStack_eq (w : ServerState) (l : Nat) (ts : List ServerTask) :
    ∃ s, w.setStack l ts = w.setLoop l s ∧
      s.effort + effortOf (w.loops l).stack = (w.loops l).effort + effortOf ts :=
  ⟨_, rfl, ServerLoop.effort_stack rfl rfl⟩

theorem push_effort_le (w : ServerState) (l : Nat) (ts : List ServerTask) :
    (w.push l ts).effort ≤ w.effort + effortOf ts := by
  obtain ⟨s, hset, hs⟩ := w.setStack_eq l (ts ++ (w.loops l).stack)
  rw [effortOf_append] at hs
  rw [push, hset]
  exact setLoop_effort_le (by omega)

theorem queueInLoop_effort_le (w : ServerState) (l : Nat) (t : ServerTask) :
    (w.queueInLoop l t).effort ≤ w.effort + (t.effort + 4) :=
  setLoop_effort_le ((w.loops l).effort_queue_le t)

theorem runInLoop_effort_le (w : ServerState) (l target : Nat) (t : ServerTask) :
    (w.runInLoop l target t).effort ≤ w.effort + (t.effort + 4) := by
  rw [runInLoop]
  split
  · have hpush := w.push_effort_le l [t]
    rw [effortOf_cons, effortOf_nil] at hpush
    omega
  · exact w.queueInLoop_effort_le target t

theorem store_effort_le (w : ServerState) (c : Nat) (x : ConnContext) :
    (w.store c x).effort ≤ w.effort := by
  have hstore : (w.store c x).effort ≤ (w.setConn c _).effort + 0 := setLoop_effort_le le_rfl
  exact hstore

/-- The task on top of the stack is taken off. -/
theorem pop_effort {t : ServerTask} {rest : List ServerTask} (hl : l ≤ w.numThreads)
    (hstack : (w.loops l).stack = t :: rest) :
    (w.setStack l rest).effort + t.effort = w.effort := by
  obtain ⟨s, hset, hs⟩ := w.setStack_eq l rest
  have hloop := setLoop_effort hl s
  rw [hstack, effortOf_cons] at hs
  rw [hset]
  omega

/-- A handler that has changed its connection and left its trace pushes what comes next. -/
theorem handled_effort_le (w : ServerState) (c l : Nat) (x : ConnContext)
    (events : List ServerEvent) (ts : List ServerTask) :
    (((w.store c x).record events).push l ts).effort ≤ w.effort + effortOf ts := by
  have hpush := ((w.store c x).record events).push_effort_le l ts
  have hstore : ((w.store c x).record events).effort ≤ w.effort := w.store_effort_le c x
  omega

theorem newConnection_effort {fd : Nat} (h : w.newConnection l fd = .ok w') :
    w'.effort + 1 ≤ w.effort + ServerTask.acceptorHandleRead.effort := by
  obtain ⟨_, _, h⟩ := bind_eq_ok h
  simp only at h
  split at h
  · cases h
  · cases h
    have hrun := (w.accept fd w.getNextLoop.1 w.getNextLoop.2).runInLoop_effort_le l w.getNextLoop.1
      (.connectEstablished w.accepted)
    have hsame : (w.accept fd w.getNextLoop.1 w.getNextLoop.2).effort = w.effort := rfl
    rw [hsame] at hrun
    exact Nat.succ_le_succ hrun

/-- **A task is worth what it leads to**, and one step more. -/
theorem runTask_effort {k : Kernel} {t : ServerTask} (h : w.runTask l k t = .ok w') :
    w'.effort + 1 ≤ w.effort + t.effort := by
  cases t with
  | handleEvent c revents =>
    cases h
    have hpush := w.push_effort_le l ((Channel.handleEvent revents).map (.callback c))
    have htasks := effortOf_handleEvent c revents
    omega
  | callback c b =>
    cases b with
    | close =>
      cases h
      exact Nat.succ_le_succ (w.push_effort_le l [.handleClose c])
    | error =>
      cases h
      exact le_rfl
    | read =>
      obtain ⟨_, _, h⟩ := bind_eq_ok h
      obtain ⟨⟨x, next⟩, _, h⟩ := bind_eq_ok h
      cases next with
      | message =>
        cases h
        have hpush := w.handled_effort_le c l x [.handler c .read] [.userCode]
        exact Nat.succ_le_succ (hpush.trans (Nat.add_le_add_left (by decide) _))
      | close =>
        cases h
        exact Nat.succ_le_succ (w.handled_effort_le c l x [.handler c .read] [.handleClose c])
      | error =>
        cases h
        exact Nat.succ_le_succ ((w.store_effort_le c x).trans (Nat.le_add_right _ _))
    | write =>
      obtain ⟨_, _, h⟩ := bind_eq_ok h
      obtain ⟨x, _, h⟩ := bind_eq_ok h
      cases h
      exact Nat.succ_le_succ (w.store_effort_le c x)
  | acceptorHandleRead =>
    rw [runTask] at h
    cases hfd : k.accept with
    | none =>
      rw [hfd] at h
      cases h
      exact Nat.add_le_add_left (by decide) _
    | some fd =>
      rw [hfd] at h
      exact newConnection_effort h
  | userCode =>
    cases h
    exact le_rfl
  | connectEstablished c =>
    obtain ⟨_, _, h⟩ := bind_eq_ok h
    obtain ⟨x, _, h⟩ := bind_eq_ok h
    cases h
    exact Nat.succ_le_succ (w.handled_effort_le c l x _ [.userCode])
  | handleClose c =>
    obtain ⟨_, _, h⟩ := bind_eq_ok h
    obtain ⟨x, _, h⟩ := bind_eq_ok h
    cases h
    exact Nat.succ_le_succ (w.handled_effort_le c l x _ [.userCode, .closeCallback c])
  | closeCallback c =>
    cases h
    exact Nat.succ_le_succ (w.runInLoop_effort_le l 0 (.removeConnectionInLoop c))
  | removeConnectionInLoop c =>
    obtain ⟨_, _, h⟩ := bind_eq_ok h
    obtain ⟨_, _, h⟩ := bind_eq_ok h
    cases h
    exact Nat.succ_le_succ (queueInLoop_effort_le _ (w.conns c).loop (.connectDestroyed c))
  | connectDestroyed c =>
    obtain ⟨_, _, h⟩ := bind_eq_ok h
    obtain ⟨⟨x, called⟩, _, h⟩ := bind_eq_ok h
    cases h
    cases called with
    | true => exact Nat.succ_le_succ (w.handled_effort_le c l x _ [.userCode, .channelRemove c])
    | false =>
      have hpush := w.handled_effort_le c l x [.connectDestroyed c] [.channelRemove c]
      exact Nat.succ_le_succ (hpush.trans (Nat.le_succ _))
  | channelRemove c =>
    obtain ⟨_, _, h⟩ := bind_eq_ok h
    obtain ⟨x, _, h⟩ := bind_eq_ok h
    cases h
    exact Nat.succ_le_succ (w.store_effort_le c x)

-- ════════════════════════════════════════════════════════════════════════
-- Work is paid for by events
-- ════════════════════════════════════════════════════════════════════════

theorem control_effort {s : ServerLoop} (hl : l ≤ w.numThreads)
    (hs : s.effort + 1 ≤ (w.loops l).effort) : (w.setLoop l s).effort + 1 ≤ w.effort := by
  have hset := setLoop_effort hl s
  omega

/-- What the active channels of a poll lead to. -/
theorem effort_active_le (p : Poller) (ready : List Ready) :
    effortOf (p.fillActiveChannels ready) + (p.fillActiveChannels ready).length ≤
      (ready.map Ready.credit).sum := by
  induction ready with
  | nil => exact le_rfl
  | cons r ready ih =>
    have hone : ∀ t, p.activeChannel r = some t → t.effort + 1 ≤ r.credit := by
      intro t ht
      cases r with
      | registered fd revents =>
        obtain ⟨e, _, rfl⟩ := Option.map_eq_some_iff.mp ht
        exact le_rfl
      | listening | other =>
        cases ht
        exact le_rfl
    rw [Poller.fillActiveChannels, List.filterMap_cons, List.map_cons, List.sum_cons]
    cases hr : p.activeChannel r with
    | none => exact ih.trans (Nat.le_add_left _ _)
    | some t =>
      have ht := hone t hr
      rw [Poller.fillActiveChannels] at ih
      simp only [effortOf_cons, List.length_cons]
      omega

theorem poll_effort {ready : List Ready} (hstack : (w.loops l).stack = [])
    (hphase : (w.loops l).phase = .polling) :
    (w.polled l ready).effort ≤ w.effort + (2 + (ready.map Ready.credit).sum) := by
  refine setLoop_effort_le ?_
  have hactive := effort_active_le (w.pollers l) ready
  simp only [ServerLoop.effort, ServerLoop.tasks, ServerLoop.moves, hstack, hphase, LoopPhase.tasks,
    effortOf_append, List.nil_append]
  omega

/-- A loop's own moves. -/
theorem control_step {s : ServerLoop} (htasks : s.tasks = (w.loops l).tasks)
    (hless : s.phase.tasks.length + s.pending.length + s.moves + 1 ≤
      (w.loops l).phase.tasks.length + (w.loops l).pending.length + (w.loops l).moves)
    (hl : l ≤ w.numThreads) : (w.setLoop l s).effort + 1 ≤ w.effort := by
  refine control_effort hl ?_
  rw [ServerLoop.effort, ServerLoop.effort, htasks]
  omega

theorem next_effort (hl : l ≤ w.numThreads) (hstack : (w.loops l).stack = [])
    (htasks : (w.loops l).phase.tasks ≠ []) : (w.perform (.next l)).effort + 1 ≤ w.effort := by
  refine control_step ?_ ?_ hl
  · rw [ServerLoop.tasks, ServerLoop.tasks, hstack, take_tail_tasks]
    rfl
  · obtain ⟨t, rest, hphase⟩ := List.exists_cons_of_ne_nil htasks
    have htail : (w.loops l).phase.tail.tasks = rest := by
      have hcut := take_tail_tasks (w.loops l).phase
      rw [hphase] at hcut
      exact List.cons.inj hcut |>.2
    have hmoves : ∀ stack, ServerLoop.moves ⟨(w.loops l).poller, (w.loops l).pending,
        (w.loops l).phase.tail, stack⟩ = (w.loops l).moves := by
      intro stack
      rw [ServerLoop.moves, ServerLoop.moves]
      cases (w.loops l).phase <;> rfl
    show (w.loops l).phase.tail.tasks.length + (w.loops l).pending.length +
      ServerLoop.moves ⟨_, _, _, _⟩ + 1 ≤ _
    rw [hmoves, htail, hphase, List.length_cons]
    omega

theorem swap_effort (hl : l ≤ w.numThreads) (hstack : (w.loops l).stack = [])
    (hphase : (w.loops l).phase = .handling []) : (w.perform (.swap l)).effort + 1 ≤ w.effort := by
  refine control_step ?_ ?_ hl
  · rw [ServerLoop.tasks, ServerLoop.tasks, hstack, hphase]
    exact List.append_nil _
  · simp only [ServerLoop.moves, hphase, LoopPhase.tasks, if_true, List.length_nil]
    omega

theorem again_effort (hl : l ≤ w.numThreads) (hstack : (w.loops l).stack = [])
    (hphase : (w.loops l).phase = .functors []) : (w.perform (.again l)).effort + 1 ≤ w.effort := by
  refine control_step ?_ ?_ hl
  · rw [ServerLoop.tasks, ServerLoop.tasks, hstack, hphase]
    rfl
  · rw [ServerLoop.moves, ServerLoop.moves, hphase]
    by_cases hpending : (w.loops l).pending = [] <;> simp [hpending, LoopPhase.tasks]

/-- A failed assertion or an exception ends the run, with the task still on the stack. -/
def alive (w : ServerState) : Nat := if w.fault = none then 1 else 0

theorem alive_le (w : ServerState) : w.alive ≤ 1 := by
  rw [alive]
  split
  · exact le_rfl
  · exact Nat.zero_le 1

/-- What is left to be done, and the end of the run. -/
def backlog (w : ServerState) : Nat := w.effort + w.alive

theorem settle_backlog {r : Except Fault ServerState} {n : Nat}
    (hr : ∀ v, r = .ok v → v.effort + n ≤ w.effort) (hn : n ≤ 1) (hfault : w.fault = none) :
    (w.settle r).backlog + n ≤ w.backlog := by
  have halive : w.alive = 1 := if_pos hfault
  cases r with
  | ok v =>
    have hv := hr v rfl
    have hle := v.alive_le
    show v.effort + v.alive + n ≤ w.effort + w.alive
    omega
  | error f =>
    show w.effort + 0 + n ≤ w.effort + w.alive
    omega

/-- **Every step is paid for.** -/
theorem step_backlog {s : ServerStep} (h : system.step w s w') :
    w'.backlog + s.cost ≤ w.backlog + s.credit := by
  obtain ⟨henabled, rfl⟩ := h
  -- the loop's own moves leave `fault` alone
  have hkeep : ∀ {v : ServerState} {m n : Nat}, v.fault = w.fault → v.effort + m ≤ w.effort + n →
      v.backlog + m ≤ w.backlog + n := by
    intro v m n hfault hle
    rw [backlog, backlog, alive, alive, hfault]
    omega
  cases s with
  | poll l ready =>
    obtain ⟨_, _, hstack, hphase, _⟩ := henabled
    have hpoll : (w.polled l ready).effort ≤ _ := poll_effort hstack hphase
    refine hkeep rfl ?_
    show (w.polled l ready).effort + 1 ≤ w.effort + (3 + _)
    omega
  | next l =>
    obtain ⟨_, hl, hstack, htasks⟩ := henabled
    exact hkeep rfl (next_effort hl hstack htasks)
  | swap l =>
    obtain ⟨_, hl, hstack, hphase⟩ := henabled
    exact hkeep rfl (swap_effort hl hstack hphase)
  | again l =>
    obtain ⟨_, hl, hstack, hphase⟩ := henabled
    exact hkeep rfl (again_effort hl hstack hphase)
  | run l k =>
    obtain ⟨hfault, hl, hne, _⟩ := henabled
    obtain ⟨t, rest, hstack⟩ := List.exists_cons_of_ne_nil hne
    have hrun : w.perform (.run l k) = w.settle ((w.setStack l rest).runTask l k t) := by
      simp only [perform, hstack]
    rw [hrun]
    refine settle_backlog (fun v hv => ?_) le_rfl hfault
    have htask := runTask_effort hv
    have hpop := pop_effort hl hstack
    show v.effort + 1 ≤ w.effort
    omega
  | call l c u =>
    refine settle_backlog (fun v hv => ?_) (Nat.zero_le 1) henabled.1
    cases hu : u.apply (w.context c) with
    | error f =>
      rw [hu] at hv
      cases hv
    | ok x =>
      rw [hu] at hv
      cases hv
      exact w.store_effort_le c x
  | userReturn l =>
    obtain ⟨_, hl, hhead⟩ := henabled
    obtain ⟨rest, hstack⟩ : ∃ rest, (w.loops l).stack = .userCode :: rest := by
      cases hs : (w.loops l).stack with
      | nil =>
        rw [hs] at hhead
        cases hhead
      | cons t rest =>
        rw [hs] at hhead
        cases hhead
        exact ⟨rest, rfl⟩
    have hpop : (w.setStack l rest).effort + 1 = w.effort := pop_effort hl hstack
    refine hkeep rfl ?_
    show (w.setStack l (w.loops l).stack.tail).effort + 1 ≤ w.effort
    rw [hstack, List.tail_cons, hpop]
  | userFunctor l => exact hkeep rfl (w.queueInLoop_effort_le l .userCode)

theorem start_backlog (name : String) (numThreads : Nat) : (start name numThreads).backlog = 1 := by
  show (∑ l ∈ Finset.range (numThreads + 1), 0) + 1 = 1
  rw [Finset.sum_const_zero]

/-- **A bounded amount of work for every event.** In every run of the server, whatever the
    loops, the threads and the kernel do, the loops have taken at most 3 steps for every
    call of `poll`, 36 for every descriptor it reported, 8 for every accept, 2 for
    every timer or wakeup and 5 for every functor of the user, and what they have still
    to do is counted in. -/
theorem work_bounded {name : String} {numThreads : Nat} {tr : List ServerStep}
    (h : system.Run (start name numThreads) tr w) :
    w.effort + (tr.map ServerStep.cost).sum ≤ 1 + (tr.map ServerStep.credit).sum := by
  have hrun := h.cost_le backlog (I := fun _ => True) (fun _ _ _ _ _ => trivial)
    (fun _ _ _ _ => step_backlog) trivial
  rw [start_backlog] at hrun
  have hle : w.effort ≤ w.backlog := Nat.le_add_right _ _
  omega

/-- One accept on `loop_`, all of it done. -/
theorem work_bounded_accept : ∃ (tr : List ServerStep) (w : ServerState), w.accepted = 1 ∧
    system.Run (start "echo" 0) tr w ∧ (tr.map ServerStep.cost).sum = 7 ∧
      w.effort + (tr.map ServerStep.cost).sum ≤ 1 + (tr.map ServerStep.credit).sum := by
  let tr : List ServerStep := [.poll 0 [.listening], .next 0,
    .run 0 { readv := .delivered [], write := .wrote 0, accept := some 7 },
    .run 0 ⟨.delivered [], .wrote 0, none⟩, .userReturn 0, .swap 0, .again 0]
  have hrun : system.Run (start "echo" 0) tr (tr.foldl perform (start "echo" 0)) :=
    .of_allowed (by decide +kernel)
  exact ⟨tr, _, by decide +kernel, hrun, by decide, work_bounded hrun⟩

end ServerState

-- ════════════════════════════════════════════════════════════════════════
-- Coming to rest
-- ════════════════════════════════════════════════════════════════════════

/-- The computation fails by an assertion or not at all. -/
def AssertsOnly {α : Type} (x : Except Fault α) : Prop := ∀ f, x = .error f → ∃ c, f = .assertion c

theorem AssertsOnly.of_ok {α : Type} (a : α) : AssertsOnly (.ok a : Except Fault α) := by
  intro f h
  cases h

theorem AssertsOnly.require (b : Bool) (c : String) : AssertsOnly (require b c) := by
  intro f h
  cases b with
  | true => cases h
  | false =>
    cases h
    exact ⟨c, rfl⟩

theorem AssertsOnly.bind {α β : Type} {x : Except Fault α} {f : α → Except Fault β}
    (hx : AssertsOnly x) (hf : ∀ a, AssertsOnly (f a)) : AssertsOnly (x >>= f) := by
  cases x with
  | ok a => exact hf a
  | error e =>
    intro g hg
    cases hg
    exact hx e rfl

/-- Where no assertion fails, it returns. -/
theorem AssertsOnly.returns {α : Type} {x : Except Fault α} {P : α → Prop} (h : AssertsOnly x)
    (hx : Passes x P) : ∃ a, x = .ok a ∧ P a := by
  cases x with
  | ok a => exact ⟨a, rfl, hx⟩
  | error f =>
    obtain ⟨c, rfl⟩ := h f rfl
    exact absurd rfl (hx c)

theorem Poller.updateChannel_assertsOnly (p : Poller) (ch : Channel) :
    AssertsOnly (p.updateChannel ch) := by
  rw [updateChannel]
  cases ch.index with
  | kNew => exact (AssertsOnly.require _ _).bind fun _ => .of_ok _
  | kDeleted =>
    exact (AssertsOnly.require _ _).bind fun _ => (AssertsOnly.require _ _).bind fun _ => .of_ok _
  | kAdded =>
    refine (AssertsOnly.require _ _).bind fun _ => (AssertsOnly.require _ _).bind fun _ => ?_
    split
    · exact .of_ok _
    · exact .of_ok _

theorem Poller.remove_assertsOnly (p : Poller) (ch : Channel) : AssertsOnly (p.remove ch) :=
  (AssertsOnly.require _ _).bind fun _ => (AssertsOnly.require _ _).bind fun _ =>
    (AssertsOnly.require _ _).bind fun _ => (AssertsOnly.require _ _).bind fun _ =>
      (AssertsOnly.require _ _).bind fun _ => (AssertsOnly.require _ _).bind fun _ => .of_ok _

theorem ConnContext.onChannel_assertsOnly (x : ConnContext)
    {f : Poller → Channel → Except Fault (Poller × Channel)}
    (hf : ∀ p ch, AssertsOnly (f p ch)) : AssertsOnly (x.onChannel f) :=
  (hf _ _).bind fun _ => .of_ok _

/-- The kernel has nothing to give and nothing to take. -/
def Kernel.quiet : Kernel := ⟨.error .ewouldblock, .error .ewouldblock, none⟩

/-- A step that no event, no peer and no user has a part in. -/
def ServerStep.Quiet : ServerStep → Prop
  | .poll _ ready => ready = []
  | .run _ k => k = .quiet
  | .call _ _ _ | .userFunctor _ => False
  | .next _ | .swap _ | .again _ | .userReturn _ => True

namespace ServerState

variable {w w' : ServerState} {c l : Nat}

theorem runTask_assertsOnly (w : ServerState) (l : Nat) (t : ServerTask) :
    AssertsOnly (w.runTask l .quiet t) := by
  have hassert : ∀ {α : Type} {owner : Nat} {f : Unit → Except Fault α}, (∀ u, AssertsOnly (f u)) →
      AssertsOnly (assertInLoopThread l owner >>= f) := fun hf => (AssertsOnly.require _ _).bind hf
  have hmask : ∀ (x : ConnContext) (events : Channel → PollMask),
      AssertsOnly (x.onChannel fun p ch => p.setEvents ch (events ch)) := fun x events =>
    x.onChannel_assertsOnly fun p _ => p.updateChannel_assertsOnly _
  cases t with
  | handleEvent c revents => exact .of_ok _
  | callback c b =>
    cases b with
    | close | error => exact .of_ok _
    | read => exact hassert fun _ => .of_ok _
    | write =>
      refine hassert fun _ => ?_
      show AssertsOnly ((w.context c).handleWrite (.error .ewouldblock) >>= _)
      rw [ConnContext.handleWrite]
      split
      · exact .of_ok _
      · exact .of_ok _
  | acceptorHandleRead | userCode | closeCallback c => exact .of_ok _
  | connectEstablished c =>
    refine hassert fun _ => AssertsOnly.bind ?_ fun _ => .of_ok _
    exact (AssertsOnly.require _ _).bind fun _ => hmask _ fun ch => ch.events.or kReadEvent
  | handleClose c =>
    refine hassert fun _ => AssertsOnly.bind ?_ fun _ => .of_ok _
    exact (AssertsOnly.require _ _).bind fun _ => hmask _ fun _ => kNoneEvent
  | removeConnectionInLoop c =>
    exact hassert fun _ => (AssertsOnly.require _ _).bind fun _ => .of_ok _
  | connectDestroyed c =>
    refine hassert fun _ => AssertsOnly.bind ?_ fun _ => .of_ok _
    rw [ConnContext.connectDestroyed]
    split
    · exact AssertsOnly.bind (hmask _ fun _ => kNoneEvent) fun _ => .of_ok _
    · exact .of_ok _
  | channelRemove c =>
    refine hassert fun _ => AssertsOnly.bind ?_ fun _ => .of_ok _
    exact ConnContext.onChannel_assertsOnly _ fun p ch => p.remove_assertsOnly ch

/-- With nothing to read or accept, the task on top of the stack returns. -/
theorem Inv.run_quiet (h : Inv w) {t : ServerTask} {rest : List ServerTask}
    (hstack : (w.loops l).stack = t :: rest) (ht : t ≠ .userCode) :
    ∃ v, (w.setStack l rest).runTask l .quiet t = .ok v ∧ v.fault = w.fault ∧
      v.accepted = w.accepted := by
  by_cases haccept : t = .acceptorHandleRead
  · subst haccept
    exact ⟨_, rfl, rfl, rfl⟩
  · obtain ⟨c, _, _, hadv⟩ := h.run_advances hstack .quiet haccept ht
    obtain ⟨v, hv, htouches, _⟩ := (runTask_assertsOnly _ _ _).returns hadv
    exact ⟨v, hv, htouches.fault, htouches.accepted⟩

/-- **While there is work, a loop can go on.** -/
theorem Inv.exists_quiet (h : Inv w) (hfault : w.fault = none) (hbusy : ¬w.Idle) :
    ∃ s w', s.Quiet ∧ (system.restrict KernelBehaves).step w s w' ∧ w'.fault = none ∧
      w'.accepted = w.accepted ∧ w'.effort < w.effort := by
  simp only [Idle, not_forall] at hbusy
  obtain ⟨l, hl, htasks⟩ := hbusy
  have hquiet : ∀ s, s.Quiet → w.Enabled s → w.KernelBehaves s → (w.perform s).fault = none →
      (w.perform s).accepted = w.accepted → (w.perform s).effort + 1 ≤ w.effort → ∃ s w', s.Quiet ∧
        (system.restrict KernelBehaves).step w s w' ∧ w'.fault = none ∧
          w'.accepted = w.accepted ∧ w'.effort < w.effort := fun s hs henabled hkernel hok hsame hless =>
    ⟨s, w.perform s, hs, ⟨hkernel, henabled, rfl⟩, hok, hsame, hless⟩
  cases hstack : (w.loops l).stack with
  | cons t rest =>
    by_cases ht : t = .userCode
    · subst ht
      have hpop : (w.setStack l rest).effort + 1 = w.effort := pop_effort hl hstack
      refine hquiet (.userReturn l) trivial ⟨hfault, hl, by rw [hstack]; rfl⟩ trivial hfault rfl ?_
      show (w.setStack l (w.loops l).stack.tail).effort + 1 ≤ _
      rw [hstack, List.tail_cons, hpop]
    · obtain ⟨v, hv, hvfault, hvaccepted⟩ := h.run_quiet hstack ht
      have hrun : w.perform (.run l .quiet) = v := by
        simp only [perform, hstack, hv]
        rfl
      have hless := runTask_effort hv
      have hpop := pop_effort hl hstack
      refine hquiet (.run l .quiet) rfl ⟨hfault, hl, ?_, ?_⟩ (fun fd hfd => ?_) ?_ ?_ ?_
      · rw [hstack]
        exact List.cons_ne_nil _ _
      · rw [hstack]
        exact fun heq => ht (Option.some.inj heq)
      · cases hfd
      · rw [hrun, hvfault, hfault]
      · rw [hrun, hvaccepted]
      · rw [hrun]
        omega
  | nil =>
    by_cases hphase : (w.loops l).phase.tasks = []
    · have hpending : (w.loops l).pending ≠ [] := by
        intro hnil
        refine htasks ?_
        rw [tasks, ServerLoop.tasks, hstack, hphase, hnil]
        rfl
      cases hp : (w.loops l).phase with
      | polling =>
        refine hquiet (.poll l []) rfl ⟨hfault, hl, hstack, hp, ?_, ?_⟩ ?_ hfault rfl ?_
        · exact List.forall_mem_nil _
        · exact fun hmem => absurd hmem List.not_mem_nil
        · exact ⟨List.nodup_nil, List.forall_mem_nil _⟩
        · refine control_step ?_ ?_ hl
          · rw [ServerLoop.tasks, ServerLoop.tasks, hstack, hp]
            rfl
          · simp [ServerLoop.moves, hp, hpending, LoopPhase.tasks, Poller.fillActiveChannels]
      | handling active =>
        rw [hp] at hphase
        have hnone : active = [] := hphase
        subst hnone
        exact hquiet (.swap l) trivial ⟨hfault, hl, hstack, hp⟩ trivial hfault rfl
          (swap_effort hl hstack hp)
      | functors batch =>
        rw [hp] at hphase
        have hnone : batch = [] := hphase
        subst hnone
        exact hquiet (.again l) trivial ⟨hfault, hl, hstack, hp⟩ trivial hfault rfl
          (again_effort hl hstack hp)
    · exact hquiet (.next l) trivial ⟨hfault, hl, hstack, hphase⟩ trivial hfault rfl
        (next_effort hl hstack hphase)

/-- **The server comes to rest.** From every reachable state without a failure, whatever
    is half done there, the loops reach rest on their own, in no more steps than they
    have work, and then every connection is served or has departed. -/
theorem comes_to_rest (h : (system.restrict KernelBehaves).Reachable w) (hfault : w.fault = none) :
    ∃ tr w', (system.restrict KernelBehaves).Run w tr w' ∧ (∀ s ∈ tr, s.Quiet) ∧
      tr.length ≤ w.effort ∧ w'.fault = none ∧ w'.Idle ∧ w'.accepted = w.accepted ∧
        ∀ c, c < w.accepted → w'.Served c ∨ w'.Departed c := by
  obtain ⟨hinv, hbooks⟩ := reachable_books h
  obtain ⟨tr, w', hrun, hquiet, hlen, ⟨hinv', hbooks', hfault', haccepted⟩, hidle⟩ :=
    Transition.System.exists_rest (M := system.restrict KernelBehaves) effort
      (I := fun v => Inv v ∧ Books v ∧ v.fault = none ∧ v.accepted = w.accepted)
      (fun v hv hbusy => by
        obtain ⟨hvinv, hvbooks, hvfault, hvaccepted⟩ := hv
        obtain ⟨s, v', hs, hstep, hok, hsame, hless⟩ := hvinv.exists_quiet hvfault hbusy
        exact ⟨s, v', hs, hstep, ⟨step_inv hvinv hstep, hvbooks.step hvinv hstep, hok,
          hsame.trans hvaccepted⟩, hless⟩)
      ⟨hinv, hbooks, hfault, rfl⟩
  refine ⟨tr, w', hrun, hquiet, hlen, hfault', hidle, haccepted, fun c hc => ?_⟩
  exact hbooks'.at_rest hinv' hidle (haccepted ▸ hc)

/-- A connection that has been accepted on `loop_` and waits in the queue of its loop. -/
theorem comes_to_rest_queued : ∃ w w' : ServerState,
    (system.restrict KernelBehaves).Reachable w ∧ (w.loops 1).pending = [.connectEstablished 0] ∧
    w'.Idle ∧ (w'.Served 0 ∨ w'.Departed 0) := by
  let tr : List ServerStep := [.poll 0 [.listening], .next 0,
    .run 0 { readv := .delivered [], write := .wrote 0, accept := some 7 }]
  have hrun : (system.restrict KernelBehaves).Run (start "echo" 1) tr
      (tr.foldl perform (start "echo" 1)) := .of_allowed_restrict (by decide +kernel)
  have hreach := (⟨_, _, ⟨"echo", 1, rfl⟩, hrun⟩ : (system.restrict KernelBehaves).Reachable _)
  obtain ⟨_, w', _, _, _, _, hidle, _, hall⟩ := comes_to_rest hreach (by decide +kernel)
  exact ⟨tr.foldl perform (start "echo" 1), w', hreach, by decide +kernel, hidle,
    hall 0 (by decide +kernel)⟩

end ServerState

end DamnWebServer
