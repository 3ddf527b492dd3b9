import DamnWebServer.Net.ServerLife

/-!
# A server with one loop

Without a thread pool `get_next_loop` gives `loop_`, and `run_in_loop` runs
`connect_established` at once. So every connection lives on `loop_`, and a connection
is `k_connecting` only while `connect_established` is the next task there: user code and
the loop itself never see one.
-/

namespace DamnWebServer

namespace ServerState

variable {w w' : ServerState} {c d l : Nat} {st : Stage}

theorem newConnection_numThreads {fd : Nat} (h : w.newConnection l fd = .ok w') :
    w'.numThreads = w.numThreads := by
  obtain ⟨_, _, h⟩ := bind_eq_ok h
  simp only at h
  split at h
  · cases h
  · cases h
    exact runInLoop_frame (·.numThreads) (fun _ _ _ _ _ _ => rfl) _ _ _

theorem perform_numThreads (w : ServerState) (s : ServerStep) :
    (w.perform s).numThreads = w.numThreads := by
  by_cases hrun : ∀ l k, s = .run l k → (w.loops l).stack.head? ≠ some .acceptorHandleRead
  · exact perform_frame (·.numThreads) (fun _ _ _ _ _ _ => rfl) hrun
  · push Not at hrun
    obtain ⟨l, k, rfl, hhead⟩ := hrun
    obtain ⟨rest, hstack⟩ := List.head?_eq_some_iff.mp hhead
    simp only [perform, hstack]
    refine settle_frame (·.numThreads) (fun _ _ _ _ _ _ => rfl) fun v hv => ?_
    rw [runTask] at hv
    cases haccept : k.accept with
    | none =>
      rw [haccept] at hv
      cases hv
      rfl
    | some fd =>
      rw [haccept] at hv
      exact newConnection_numThreads (w := w.setStack l rest) hv

/-- Every connection lives on `loop_`, and one that is being set up is set up before
    anything else runs there. -/
structure Single (w : ServerState) : Prop where
  numThreads : w.numThreads = 0
  loop : ∀ c, c < w.accepted → (w.conns c).loop = 0
  connecting : ∀ c, c < w.accepted → (w.conns c).conn.state = .kConnecting →
    (w.loops 0).stack.head? = some (.connectEstablished c)

theorem At.not_connecting (h : w.At c st) (hst : 0 < st.reached) :
    (w.conns c).conn.state ≠ .kConnecting := by
  intro hstate
  have hfits := h.has.fits
  have hopen : ¬(w.conns c).conn.Open := by
    rintro ⟨hup | hup, _⟩ <;> rw [hstate] at hup <;> cases hup
  have hdown : ∀ index, ¬(w.conns c).conn.Down index := by
    rintro index ⟨hup | hup, _⟩ <;> rw [hstate] at hup <;> cases hup
  cases st with
  | queued => exact absurd hst (Nat.lt_irrefl 0)
  | polled revents => exact hopen hfits.1
  | up | reading | closing => exact hopen hfits
  | closed | removing | erased | destroying | gone => exact hdown _ hfits

/-- Nothing is being set up while something else is on top of the stack. -/
theorem Single.settled (h : Single w)
    (hhead : ∀ c, (w.loops 0).stack.head? ≠ some (.connectEstablished c)) (hc : c < w.accepted) :
    (w.conns c).conn.state ≠ .kConnecting :=
  fun hstate => hhead c (h.connecting c hc hstate)

/-- A step that leaves the connections alone, while none is being set up. -/
theorem Single.same (h : Single w)
    (hhead : ∀ c, (w.loops 0).stack.head? ≠ some (.connectEstablished c))
    (hnum : w'.numThreads = w.numThreads) (haccepted : w'.accepted = w.accepted)
    (hconns : w'.conns = w.conns) : Single w' where
  numThreads := hnum.trans h.numThreads
  loop c hc := by
    rw [haccepted] at hc
    rw [hconns]
    exact h.loop c hc
  connecting c hc hstate := by
    rw [haccepted] at hc
    rw [hconns] at hstate
    exact absurd hstate (h.settled hhead hc)

theorem Single.advance (h : Single w) {t : ServerTask} (hhead : (w.loops 0).stack.head? = some t)
    (howner : ∀ d, t.owner = some d → d = c) (hnum : w'.numThreads = w.numThreads)
    (hadv : w.Advances c w') : Single w' := by
  obtain ⟨ht, st, hat, hst⟩ := hadv
  refine ⟨hnum.trans h.numThreads, fun d hd => ?_, fun d hd hstate => ?_⟩
  · rw [ht.accepted] at hd
    by_cases hdc : d = c
    · subst hdc
      rw [ht.loop]
      exact h.loop d hd
    · rw [ht.conns d hdc]
      exact h.loop d hd
  · rw [ht.accepted] at hd
    by_cases hdc : d = c
    · subst hdc
      exact absurd hstate (hat.not_connecting hst)
    · rw [ht.conns d hdc] at hstate
      have hest := h.connecting d hd hstate
      rw [hhead] at hest
      cases hest
      exact absurd (howner d rfl) hdc

/-- The new connection goes to `loop_`, and is set up at once. -/
theorem Single.newConnection (h : Single w)
    (hsettled : ∀ c, c < w.accepted → (w.conns c).conn.state ≠ .kConnecting) {fd : Nat}
    (hok : w.newConnection 0 fd = .ok w') : Single w' := by
  have hnum := newConnection_numThreads hok
  have hloop : w.getNextLoop.1 = 0 := by rw [getNextLoop, if_pos h.numThreads]
  obtain ⟨_, _, hok⟩ := bind_eq_ok hok
  simp only at hok
  split at hok
  · cases hok
  · cases hok
    have hcases : ∀ c, c < w.accepted + 1 → c = w.accepted ∨ c < w.accepted := by
      intro c hc
      omega
    rw [hloop]
    refine ⟨h.numThreads, fun c hc => ?_, fun c hc hstate => ?_⟩
    · rcases hcases c hc with rfl | hlt
      · change (Function.update w.conns w.accepted _ w.accepted).loop = 0
        rw [Function.update_self]
      · change (Function.update w.conns w.accepted _ c).loop = 0
        rw [Function.update_of_ne (Nat.ne_of_lt hlt)]
        exact h.loop c hlt
    · rcases hcases c hc with rfl | hlt
      · change ((Function.update w.loops 0 _) 0).stack.head? = _
        rw [Function.update_self]
        rfl
      · change (Function.update w.conns w.accepted _ c).conn.state = _ at hstate
        rw [Function.update_of_ne (Nat.ne_of_lt hlt)] at hstate
        exact absurd hstate (hsettled c hlt)

theorem Single.settle (h : Single w) {r : Except Fault ServerState}
    (hr : ∀ v, r = .ok v → Single v) : Single (w.settle r) := by
  cases r with
  | ok v => exact hr v rfl
  | error f => exact ⟨h.numThreads, h.loop, h.connecting⟩

/-- A call on a connection that has been set up. -/
theorem Single.call (h : Single w)
    (hhead : ∀ c, (w.loops 0).stack.head? ≠ some (.connectEstablished c))
    (hknown : .connectionCallback c true ∈ w.log) {x : ConnContext} (hinv : Inv (w.store c x)) :
    Single (w.store c x) := by
  refine ⟨h.numThreads, fun d hd => ?_, fun d hd hstate => ?_⟩
  · by_cases hdc : d = c
    · subst hdc
      rw [store_conn_self]
      exact h.loop d hd
    · rw [store_conn_of_ne w x hdc]
      exact h.loop d hd
  · by_cases hdc : d = c
    · subst hdc
      obtain ⟨st, hat⟩ := hinv.stage d hd
      have hhist : .connectionCallback d true ∈ history d (w.store d x).log :=
        List.mem_filter.mpr ⟨hknown, decide_eq_true rfl⟩
      have hst := hat.has.logged.reached_pos (List.ne_nil_of_mem hhist)
      exact absurd hstate (hat.not_connecting hst)
    · rw [store_conn_of_ne w x hdc] at hstate
      exact absurd hstate (h.settled hhead hd)

theorem Single.run (h : Single w) (hinv : Inv w) {t : ServerTask} {rest : List ServerTask}
    (hstack : (w.loops 0).stack = t :: rest) (ht : t ≠ .userCode) {k : Kernel}
    (hok : (w.setStack 0 rest).runTask 0 k t = .ok w') : Single w' := by
  have htop : (w.loops 0).stack.head? = some t := by rw [hstack]; rfl
  by_cases haccept : t = .acceptorHandleRead
  · subst haccept
    have hother : ∀ c, (w.loops 0).stack.head? ≠ some (.connectEstablished c) := by
      intro c
      rw [htop]
      exact nofun
    have hpop : Single (w.setStack 0 rest) := h.same hother rfl rfl rfl
    rw [runTask] at hok
    cases hfd : k.accept with
    | none =>
      rw [hfd] at hok
      cases hok
      exact hpop
    | some fd =>
      rw [hfd] at hok
      exact hpop.newConnection (fun c hc => h.settled (c := c) hother hc) hok
  · obtain ⟨c, _, howner, hadv⟩ := hinv.run_advances hstack k haccept ht
    have hnum := runTask_frame (·.numThreads) (fun _ _ _ _ _ _ => rfl) haccept hok
    exact h.advance htop howner (hnum.trans rfl) (hadv.of_eq_ok hok)

/-- **Every step** of a server without a pool. -/
theorem Single.step (h : Single w) (hinv : Inv w) (hinv' : Inv w') {s : ServerStep}
    (hstep : (system.restrict KernelBehaves).step w s w') : Single w' := by
  obtain ⟨_, henabled, rfl⟩ := hstep
  have hzero : ∀ l, l ≤ w.numThreads → l = 0 := fun l hl => Nat.le_zero.mp (h.numThreads ▸ hl)
  -- a loop's own moves need an empty stack
  have hcontrol : ∀ l, l ≤ w.numThreads → (w.loops l).stack = [] →
      ∀ c, (w.loops 0).stack.head? ≠ some (.connectEstablished c) := by
    intro l hl hstack c
    rw [← hzero l hl, hstack]
    exact nofun
  have huser : ∀ l, l ≤ w.numThreads → (w.loops l).stack.head? = some .userCode →
      ∀ c, (w.loops 0).stack.head? ≠ some (.connectEstablished c) := by
    intro l hl hhead c
    rw [← hzero l hl, hhead]
    exact nofun
  cases s with
  | poll l ready | next l | swap l | again l =>
    exact h.same (hcontrol l henabled.2.1 henabled.2.2.1) rfl rfl rfl
  | userReturn l => exact h.same (huser l henabled.2.1 henabled.2.2) rfl rfl rfl
  | userFunctor l =>
    refine ⟨h.numThreads, h.loop, fun c hc hstate => ?_⟩
    have hhead := h.connecting c hc hstate
    obtain rfl := hzero l henabled.2
    rw [perform, queueInLoop, setLoop_self]
    exact hhead
  | call l c u =>
    obtain ⟨_, hl, hhead, _, _, hknown⟩ := henabled
    refine h.settle fun v hv => ?_
    have hperform : w.perform (.call l c u) = v := congrArg w.settle hv
    rw [hperform] at hinv'
    cases hu : u.apply (w.context c) with
    | error f =>
      rw [hu] at hv
      cases hv
    | ok x =>
      rw [hu] at hv
      cases hv
      exact h.call (huser l hl hhead) hknown hinv'
  | run l k =>
    obtain ⟨_, hl, hne, hhead⟩ := henabled
    obtain rfl := hzero l hl
    obtain ⟨t, rest, hstack⟩ := List.exists_cons_of_ne_nil hne
    have ht : t ≠ .userCode := by
      rintro rfl
      exact hhead (by rw [hstack]; rfl)
    have hrun : w.perform (.run 0 k) = w.settle ((w.setStack 0 rest).runTask 0 k t) := by
      simp only [perform, hstack]
    rw [hrun]
    exact h.settle fun v hv => h.run hinv hstack ht hv

theorem reachable_single (h : (system.restrict KernelBehaves).Reachable w)
    (hnum : w.numThreads = 0) : Single w := by
  have hall : Inv w ∧ (w.numThreads = 0 → Single w) := by
    refine h.invariant (I := fun w => Inv w ∧ (w.numThreads = 0 → Single w)) ?_ ?_
    · rintro _ ⟨name, numThreads, rfl⟩
      refine ⟨start_inv name numThreads, fun h0 => ⟨h0, fun c hc => ?_, fun c hc => ?_⟩⟩
      · exact absurd hc (Nat.not_lt_zero c)
      · exact absurd hc (Nat.not_lt_zero c)
    · rintro v s v' ⟨hinv, hsingle⟩ hstep
      have hinv' := step_inv hinv hstep
      refine ⟨hinv', fun h0 => ?_⟩
      have hv : v.numThreads = 0 := by
        rw [← hstep.2.2, perform_numThreads] at h0
        exact h0
      exact (hsingle hv).step hinv hinv' hstep
  exact hall.2 hnum

end ServerState

end DamnWebServer
