import DamnWebServer.Net.ServerSingle

/-!
# The books of the server

`connections_` of `Tcp_Server`, and how `Event_Loop_Thread_Pool` deals the connections
to its loops. A connection is listed under its own name and no other, from
`new_connection` until `remove_connection_in_loop` erases it; the loops of the pool
take turns. In a state where no loop has anything left to run, every connection is
either being served or has gone without a trace.
-/

namespace DamnWebServer

namespace ServerState

variable {w w' : ServerState} {c l : Nat} {st : Stage}

/-- The loop whose turn it is when the connection `c` comes. -/
def turn (numThreads c : Nat) : Nat := if numThreads = 0 then 0 else c % numThreads + 1

structure Books (w : ServerState) : Prop where
  listed : ∀ n c, w.connections n = some c → c < w.accepted ∧ n = connName w.name (c + 1)
  dealt : ∀ c, c < w.accepted → (w.conns c).loop = turn w.numThreads c
  next : w.next = if w.numThreads = 0 then 0 else w.accepted % w.numThreads

theorem start_books (name : String) (numThreads : Nat) : Books (start name numThreads) where
  listed _ _ hlisted := absurd hlisted (Option.some_ne_none _).symm
  dealt c hc := absurd hc (Nat.not_lt_zero c)
  next := by
    show 0 = if numThreads = 0 then 0 else 0 % numThreads
    rw [Nat.zero_mod, ite_self]

/-- A step that makes no entry and moves no connection. -/
theorem Books.same (h : Books w) (hname : w'.name = w.name) (hnum : w'.numThreads = w.numThreads)
    (hnext : w'.next = w.next) (haccepted : w'.accepted = w.accepted)
    (hloop : ∀ c, (w'.conns c).loop = (w.conns c).loop)
    (hlisted : ∀ n c, w'.connections n = some c →
      c < w.accepted ∧ n = connName w.name (c + 1)) : Books w' where
  listed n c hn := by
    rw [haccepted, hname]
    exact hlisted n c hn
  dealt c hc := by
    rw [haccepted] at hc
    rw [hloop, hnum]
    exact h.dealt c hc
  next := by
    rw [hnext, hnum, haccepted]
    exact h.next

/-- A step on one connection touches no other entry, and its own is its own. -/
theorem Books.advance (h : Books w) (hc : c < w.accepted)
    (hnum : w'.numThreads = w.numThreads) (hnext : w'.next = w.next) (hadv : w.Advances c w') :
    Books w' := by
  obtain ⟨ht, st, hat, _⟩ := hadv
  refine h.same ht.name hnum hnext ht.accepted (fun d => ?_) fun n d hn => ?_
  · by_cases hdc : d = c
    · subst hdc
      exact ht.loop
    · rw [ht.conns d hdc]
  · by_cases hown : n = (w.conns c).name
    · have hentry := hat.has.entry
      rw [ht.connName, ← hown, hn] at hentry
      have hd : d = c := by
        split at hentry
        · exact Option.some.inj hentry
        · cases hentry
      subst hd
      refine ⟨hc, ?_⟩
      rw [hown, ← ht.connName, hat.has.name, ht.name]
    · rw [ht.connections n hown] at hn
      exact h.listed n d hn

/-- The turns follow each other. -/
theorem succ_mod (n r : Nat) (hr : 0 < r) :
    (if r ≤ n % r + 1 then 0 else n % r + 1) = (n + 1) % r := by
  have hlt : n % r < r := Nat.mod_lt n hr
  rw [← Nat.mod_add_mod]
  by_cases hwrap : r ≤ n % r + 1
  · have hfull : n % r + 1 = r := by omega
    rw [if_pos hwrap, hfull, Nat.mod_self]
  · rw [if_neg hwrap, Nat.mod_eq_of_lt (Nat.lt_of_not_le hwrap)]

/-- `get_next_loop` deals the next connection to the loop whose turn it is. -/
theorem Books.getNextLoop (h : Books w) : w.getNextLoop = (turn w.numThreads w.accepted,
    if w.numThreads = 0 then 0 else (w.accepted + 1) % w.numThreads) := by
  rw [ServerState.getNextLoop, turn]
  by_cases hzero : w.numThreads = 0
  · rw [if_pos hzero, if_pos hzero, if_pos hzero, h.next, if_pos hzero]
  · rw [if_neg hzero, if_neg hzero, if_neg hzero, h.next, if_neg hzero,
      succ_mod _ _ (Nat.pos_of_ne_zero hzero)]

theorem runInLoop_books {target : Nat} {t : ServerTask} (h : Books w) :
    Books (w.runInLoop l target t) := by
  rw [runInLoop]
  split
  · exact ⟨h.listed, h.dealt, h.next⟩
  · exact ⟨h.listed, h.dealt, h.next⟩

theorem Books.newConnection (h : Books w) (hid : w.nextConnId = w.accepted + 1) {fd : Nat}
    (hok : w.newConnection l fd = .ok w') : Books w' := by
  obtain ⟨_, _, hok⟩ := bind_eq_ok hok
  simp only at hok
  split at hok
  · cases hok
  · cases hok
    refine runInLoop_books ⟨fun n c hn => ?_, fun c hc => ?_, ?_⟩
    · change Function.update w.connections (connName w.name w.nextConnId) (some w.accepted) n =
        some c at hn
      by_cases hnew : n = connName w.name w.nextConnId
      · rw [hnew, Function.update_self] at hn
        cases hn
        exact ⟨Nat.lt_succ_self _, by rw [hnew, hid]; rfl⟩
      · rw [Function.update_of_ne hnew] at hn
        obtain ⟨hc, hname⟩ := h.listed n c hn
        exact ⟨Nat.lt_succ_of_lt hc, hname⟩
    · show (Function.update w.conns w.accepted _ c).loop = _
      by_cases hnew : c = w.accepted
      · subst hnew
        rw [Function.update_self]
        exact congrArg Prod.fst h.getNextLoop
      · rw [Function.update_of_ne hnew]
        exact h.dealt c (Nat.lt_of_le_of_ne (Nat.le_of_lt_succ hc) hnew)
    · exact congrArg Prod.snd h.getNextLoop

theorem Books.settle (h : Books w) {r : Except Fault ServerState}
    (hr : ∀ v, r = .ok v → Books v) : Books (w.settle r) := by
  cases r with
  | ok v => exact hr v rfl
  | error f => exact ⟨h.listed, h.dealt, h.next⟩

theorem Books.run (h : Books w) (hinv : Inv w) {t : ServerTask} {rest : List ServerTask}
    (hstack : (w.loops l).stack = t :: rest) (ht : t ≠ .userCode) {k : Kernel}
    (hok : (w.setStack l rest).runTask l k t = .ok w') : Books w' := by
  by_cases haccept : t = .acceptorHandleRead
  · subst haccept
    have hpop : Books (w.setStack l rest) := ⟨h.listed, h.dealt, h.next⟩
    rw [runTask] at hok
    cases hfd : k.accept with
    | none =>
      rw [hfd] at hok
      cases hok
      exact hpop
    | some fd =>
      rw [hfd] at hok
      exact hpop.newConnection hinv.nextConnId hok
  · obtain ⟨c, hc, _, hadv⟩ := hinv.run_advances hstack k haccept ht
    have hnum := runTask_frame (·.numThreads) (fun _ _ _ _ _ _ => rfl) haccept hok
    have hnext := runTask_frame (·.next) (fun _ _ _ _ _ _ => rfl) haccept hok
    exact h.advance hc hnum hnext (hadv.of_eq_ok hok)

theorem Books.step (h : Books w) (hinv : Inv w) {s : ServerStep}
    (hstep : (system.restrict KernelBehaves).step w s w') : Books w' := by
  obtain ⟨_, henabled, rfl⟩ := hstep
  cases s with
  | poll l ready | next l | swap l | again l | userReturn l | userFunctor l =>
    exact ⟨h.listed, h.dealt, h.next⟩
  | call l c u =>
    refine h.settle fun v hv => ?_
    cases hu : u.apply (w.context c) with
    | error f =>
      rw [hu] at hv
      cases hv
    | ok x =>
      rw [hu] at hv
      cases hv
      refine h.same rfl rfl rfl rfl (fun d => ?_) h.listed
      by_cases hdc : d = c
      · subst hdc
        rw [store_conn_self]
      · rw [store_conn_of_ne w x hdc]
  | run l k =>
    obtain ⟨_, _, hne, hhead⟩ := henabled
    obtain ⟨t, rest, hstack⟩ := List.exists_cons_of_ne_nil hne
    have ht : t ≠ .userCode := by
      rintro rfl
      exact hhead (by rw [hstack]; rfl)
    have hrun : w.perform (.run l k) = w.settle ((w.setStack l rest).runTask l k t) := by
      simp only [perform, hstack]
    rw [hrun]
    exact h.settle fun v hv => h.run hinv hstack ht hv

theorem reachable_books (h : (system.restrict KernelBehaves).Reachable w) : Inv w ∧ Books w := by
  refine h.invariant (I := fun w => Inv w ∧ Books w) ?_ ?_
  · rintro _ ⟨name, numThreads, rfl⟩
    exact ⟨start_inv name numThreads, start_books name numThreads⟩
  · rintro v s v' ⟨hinv, hbooks⟩ hstep
    exact ⟨step_inv hinv hstep, hbooks.step hinv hstep⟩

-- ════════════════════════════════════════════════════════════════════════
-- What the books say
-- ════════════════════════════════════════════════════════════════════════

/-- The erasure is among the milestones once the stage is behind it. -/
theorem Has.erased_iff (h : w.Has c st) :
    .removeConnectionInLoop c 1 ∈ w.log ↔ ¬st.reached < 5 := by
  have hcount : (milestones c w.log).count (.removeConnectionInLoop c 1) =
      w.log.count (.removeConnectionInLoop c 1) := count_milestones rfl rfl
  rw [← List.count_pos_iff, ← hcount, List.count_pos_iff, h.logged.milestones]
  cases st <;> simp [Stage.reached, lifeCycle]

/-- **`connections_` lists who is there.** In every reachable state a name maps to a
    connection exactly if it is that connection's own name and the connection has
    been made and not yet been erased. -/
theorem connections_iff (h : (system.restrict KernelBehaves).Reachable w) (n : String) (c : Nat) :
    w.connections n = some c ↔
      c < w.accepted ∧ n = connName w.name (c + 1) ∧ .removeConnectionInLoop c 1 ∉ w.log := by
  obtain ⟨hinv, hbooks⟩ := reachable_books h
  have hentry : c < w.accepted → n = connName w.name (c + 1) →
      (w.connections n = some c ↔ .removeConnectionInLoop c 1 ∉ w.log) := by
    intro hc hn
    obtain ⟨st, hat⟩ := hinv.stage c hc
    rw [hn, ← hat.has.name, hat.has.entry, hat.has.erased_iff, not_not]
    by_cases hst : st.reached < 5 <;> simp [hst]
  constructor
  · intro hlisted
    obtain ⟨hc, hn⟩ := hbooks.listed n c hlisted
    exact ⟨hc, hn, (hentry hc hn).mp hlisted⟩
  · rintro ⟨hc, hn, hthere⟩
    exact (hentry hc hn).mpr hthere

/-- Two connections on `loop_`, of which the first is closed by its peer and erased. -/
theorem connections_iff_two : ∃ w : ServerState,
    (system.restrict KernelBehaves).Reachable w ∧ w.accepted = 2 ∧
    w.connections (connName "echo" 1) ≠ some 0 ∧ w.connections (connName "echo" 2) = some 1 := by
  -- every read finds the end of the stream
  let k : Kernel := ⟨.delivered [], .wrote 0, none⟩
  let tr : List ServerStep := [.poll 0 [.listening], .next 0, .run 0 { k with accept := some 7 },
    .run 0 k, .userReturn 0, .swap 0, .again 0, .poll 0 [.listening], .next 0,
    .run 0 { k with accept := some 8 }, .run 0 k, .userReturn 0, .swap 0, .again 0,
    .poll 0 [.registered 7 { pollin := true }], .next 0, .run 0 k, .run 0 k, .run 0 k,
    .userReturn 0, .run 0 k, .run 0 k]
  have hrun : (system.restrict KernelBehaves).Run (start "echo" 0) tr _ :=
    .of_allowed_restrict (by decide +kernel)
  have hreach := (⟨_, _, ⟨"echo", 0, rfl⟩, hrun⟩ : (system.restrict KernelBehaves).Reachable _)
  have haccepted : (tr.foldl perform (start "echo" 0)).accepted = 2 := by decide +kernel
  have hname : (tr.foldl perform (start "echo" 0)).name = "echo" := by decide +kernel
  refine ⟨_, hreach, haccepted, fun hlisted => ?_, ?_⟩
  · have herased := ((connections_iff hreach _ _).mp hlisted).2.2
    exact herased (by decide +kernel)
  · refine (connections_iff hreach _ _).mpr ⟨?_, ?_, by decide +kernel⟩
    · rw [haccepted]
      decide
    · rw [hname]

/-- How many connections have been dealt to the loop `l`. -/
def load (w : ServerState) (l : Nat) : Nat := Nat.count (fun c => (w.conns c).loop = l) w.accepted

theorem Books.load (h : Books w) {k : Nat} (hk : k < w.numThreads) :
    w.load (k + 1) =
      w.accepted / w.numThreads + if k < w.accepted % w.numThreads then 1 else 0 := by
  have hpos : 0 < w.numThreads := Nat.zero_lt_of_lt hk
  have hturn : ∀ c ∈ Finset.range w.accepted,
      ((w.conns c).loop = k + 1 ↔ c ≡ k [MOD w.numThreads]) := by
    intro c hc
    rw [h.dealt c (Finset.mem_range.mp hc), turn, if_neg (Nat.ne_of_gt hpos), Nat.add_right_cancel_iff,
      Nat.ModEq, Nat.mod_eq_of_lt hk]
  calc w.load (k + 1) = Nat.count (· ≡ k [MOD w.numThreads]) w.accepted := by
        rw [ServerState.load, Nat.count_eq_card_filter_range, Nat.count_eq_card_filter_range,
          Finset.filter_congr hturn]
    _ = _ := by rw [Nat.count_modEq_card _ hpos, Nat.mod_eq_of_lt hk]

/-- **The pool shares the connections out evenly.** Without threads every connection is
    on `loop_`. With threads none is, and no loop of the pool has ever been given more
    than one connection more than another. -/
theorem loads_even (h : (system.restrict KernelBehaves).Reachable w) :
    (w.numThreads = 0 → w.load 0 = w.accepted) ∧
      (0 < w.numThreads → w.load 0 = 0 ∧
        ∀ j k, j < w.numThreads → k < w.numThreads → w.load (j + 1) ≤ w.load (k + 1) + 1) := by
  have hbooks := (reachable_books h).2
  refine ⟨fun hzero => ?_, fun hpos => ⟨?_, fun j k hj hk => ?_⟩⟩
  · rw [load, Nat.count_eq_card_filter_range, Finset.filter_true_of_mem, Finset.card_range]
    intro c hc
    rw [hbooks.dealt c (Finset.mem_range.mp hc), turn, if_pos hzero]
  · rw [load, Nat.count_eq_card_filter_range, Finset.card_eq_zero, Finset.filter_eq_empty_iff]
    intro c hc
    rw [hbooks.dealt c (Finset.mem_range.mp hc), turn, if_neg (Nat.ne_of_gt hpos)]
    exact Nat.succ_ne_zero _
  · rw [hbooks.load hj, hbooks.load hk]
    split <;> split <;> omega

/-- Two connections on a pool of two threads. -/
theorem loads_even_two : ∃ w : ServerState,
    (system.restrict KernelBehaves).Reachable w ∧ w.accepted = 2 ∧ w.load 0 = 0 ∧
    w.load 1 ≤ w.load 2 + 1 ∧ w.load 2 ≤ w.load 1 + 1 := by
  let k : Kernel := ⟨.delivered [], .wrote 0, none⟩
  let tr : List ServerStep := [.poll 0 [.listening], .next 0, .run 0 { k with accept := some 7 },
    .swap 0, .again 0, .poll 0 [.listening], .next 0, .run 0 { k with accept := some 8 }]
  have hrun : (system.restrict KernelBehaves).Run (start "echo" 2) tr _ :=
    .of_allowed_restrict (by decide +kernel)
  have hreach := (⟨_, _, ⟨"echo", 2, rfl⟩, hrun⟩ : (system.restrict KernelBehaves).Reachable _)
  have heven := loads_even hreach
  have hnum : (tr.foldl perform (start "echo" 2)).numThreads = 2 := by decide +kernel
  obtain ⟨hzero, hloops⟩ := heven.2 (by rw [hnum]; decide)
  rw [hnum] at hloops
  exact ⟨_, hreach, by decide +kernel, hzero, hloops 0 1 (by decide) (by decide),
    hloops 1 0 (by decide) (by decide)⟩

/-- The server serves the connection. -/
structure Served (w : ServerState) (c : Nat) : Prop where
  conn : (w.conns c).conn.Open
  entry : w.connections (w.conns c).name = some c
  channels : (w.pollers (w.conns c).loop).channels (w.conns c).conn.channel.fd = some c
  interest : (w.pollers (w.conns c).loop).interest (w.conns c).conn.channel.fd =
    some ((w.conns c).conn.channel.events, c)
  calls : milestones c w.log = [.connectEstablished c, .connectionCallback c true]

/-- The server has nothing left of the connection. -/
structure Departed (w : ServerState) (c : Nat) : Prop where
  conn : (w.conns c).conn.Down .kNew
  entry : w.connections (w.conns c).name = none
  channels : (w.pollers (w.conns c).loop).channels (w.conns c).conn.channel.fd = none
  interest : (w.pollers (w.conns c).loop).interest (w.conns c).conn.channel.fd = none
  calls : milestones c w.log = lifeCycle c

/-- Nothing is left to run in any loop. -/
def Idle (w : ServerState) : Prop := ∀ l ≤ w.numThreads, w.tasks l = []

theorem turn_le (numThreads c : Nat) : turn numThreads c ≤ numThreads := by
  rw [turn]
  split
  · exact Nat.zero_le _
  · rename_i hpos
    exact Nat.mod_lt c (Nat.pos_of_ne_zero hpos)

/-- With nothing to run a connection is at one of the two stages that wait for nothing. -/
theorem At.of_idle (hat : w.At c st) (hloop : (w.conns c).loop ≤ w.numThreads)
    (hidle : w.Idle) : st = .up ∨ st = .gone := by
  have hplace : st.place (w.conns c).loop ≤ w.numThreads := by
    cases st with
    | removing => exact Nat.zero_le _
    | _ => exact hloop
  have htask : st.task c = [] := by
    rw [← hat.tasks.here, hidle _ hplace]
    rfl
  cases st with
  | up => exact Or.inl rfl
  | gone => exact Or.inr rfl
  | queued | polled _ | reading | closing | closed | removing | erased | destroying => cases htask

/-- **At rest** a connection is served, or it has departed: nothing of it hangs in
    between. -/
theorem Books.at_rest (h : Books w) (hinv : Inv w) (hidle : w.Idle) (hc : c < w.accepted) :
    w.Served c ∨ w.Departed c := by
  obtain ⟨st, hat⟩ := hinv.stage c hc
  have hloop : (w.conns c).loop ≤ w.numThreads := by
    rw [h.dealt c hc]
    exact turn_le _ _
  have htracks := hat.has.tracks
  rw [Poller.Tracks, hat.has.addr] at htracks
  rcases hat.of_idle hloop hidle with rfl | rfl
  · have hopen : (w.conns c).conn.Open := hat.has.fits
    rw [hopen.2.1] at htracks
    exact Or.inl ⟨hopen, hat.has.entry, htracks.1, htracks.2, hat.has.logged.milestones⟩
  · have hdown : (w.conns c).conn.Down .kNew := hat.has.fits
    rw [hdown.2.2] at htracks
    exact Or.inr ⟨hdown, hat.has.entry, htracks.1, htracks.2, hat.has.logged.milestones⟩

/-- **No clean-up is lost.** Whenever no loop has anything left to run, every connection
    that was ever accepted is served in full, or has gone through its whole life
    and left nothing in `connections_`, in a poller or with the kernel. -/
theorem served_or_departed (h : (system.restrict KernelBehaves).Reachable w) (hidle : w.Idle)
    {c : Nat} (hc : c < w.accepted) : w.Served c ∨ w.Departed c := by
  obtain ⟨hinv, hbooks⟩ := reachable_books h
  exact hbooks.at_rest hinv hidle hc

/-- A connection on `loop_` that is up. -/
theorem served_or_departed_one : ∃ w : ServerState,
    (system.restrict KernelBehaves).Reachable w ∧ w.Idle ∧ w.accepted = 1 ∧
    (w.Served 0 ∨ w.Departed 0) := by
  let tr : List ServerStep := [.poll 0 [.listening], .next 0,
    .run 0 { readv := .delivered [], write := .wrote 0, accept := some 7 },
    .run 0 ⟨.delivered [], .wrote 0, none⟩, .userReturn 0]
  have hrun : (system.restrict KernelBehaves).Run (start "echo" 0) tr
      (tr.foldl perform (start "echo" 0)) := .of_allowed_restrict (by decide +kernel)
  have hidle : (tr.foldl perform (start "echo" 0)).Idle := by
    unfold Idle
    decide +kernel
  have hreach := (⟨_, _, ⟨"echo", 0, rfl⟩, hrun⟩ : (system.restrict KernelBehaves).Reachable _)
  exact ⟨_, hreach, hidle, by decide +kernel, served_or_departed hreach hidle (by decide +kernel)⟩

end ServerState

end DamnWebServer
