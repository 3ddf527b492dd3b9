import DamnWebServer.Log.AsyncBuffers

/-!
# Stopping the logger

`stop()` clears `running_`, and the thread tests it at the head of its loop only. It
writes once more exactly if it stands between that test and its swap section when
`running_` is cleared; otherwise what is in the front end by then stays there.
-/

namespace DamnWebServer

namespace AsyncLogging

variable {s t : AsyncLogging}

/-- What a step of the thread other than the swap leaves alone, and where it leads. -/
structure Stays (s t : AsyncLogging) : Prop where
  running : t.running = s.running
  current : t.currentBuffer = s.currentBuffer
  buffers : t.buffers = s.buffers
  owner : t.owner = s.owner
  appended : t.appended = s.appended
  early : t.early = s.early
  locking : t.pc = .locking → s.running = true
  waiting : t.pc = .waiting ↔ s.pc = .locking
  not_waiting : s.pc ≠ .waiting

/-- **A step of the thread** is a swap, or it does not touch the front end. -/
theorem threadFunc_cases (h : s.threadFunc = .ok t) :
    (s.pc = .locking ∨ s.pc = .waiting) ∧ t = s.swapSection ∨ Stays s t := by
  -- the points whose successor is neither `locking` nor `waiting`
  have hstays : ∀ u : AsyncLogging, u.running = s.running → u.currentBuffer = s.currentBuffer →
      u.buffers = s.buffers → u.owner = s.owner → u.appended = s.appended → u.early = s.early →
      u.pc ≠ .locking ∧ u.pc ≠ .waiting → s.pc ≠ .locking ∧ s.pc ≠ .waiting → Stays s u :=
    fun u h1 h2 h3 h4 h5 h6 hu hs => ⟨h1, h2, h3, h4, h5, h6, fun hl => absurd hl hu.1,
      ⟨fun hw => absurd hw hu.2, fun hl => absurd hl hs.1⟩, hs.2⟩
  cases backStep_of_threadFunc h with
  | swap hpc => exact Or.inl ⟨hpc, rfl⟩
  | rest hpc =>
    rcases hpc with hpc | hpc
    · exact Or.inr (hstays _ rfl rfl rfl rfl rfl rfl (by simp [hpc]) (by simp [hpc]))
    · exact Or.inr (hstays _ rfl rfl rfl rfl rfl rfl (by simp [hpc]) (by simp [hpc]))
  | test hpc =>
    refine Or.inr ⟨rfl, rfl, rfl, rfl, rfl, rfl, ?_, ?_, by simp [hpc]⟩
    · intro hlock
      by_contra hrun
      simp [hrun] at hlock
    · by_cases hrun : s.running = true <;> simp [hrun, hpc]
  | wait hpc => refine Or.inr ⟨rfl, rfl, rfl, rfl, rfl, rfl, ?_, ?_, ?_⟩ <;> simp [hpc]
  | entry hpc | written hpc | trim hpc | keep1 hpc | keep2 hpc | clear hpc | leave hpc =>
    exact Or.inr (hstays _ rfl rfl rfl rfl rfl rfl (by simp) (by simp [hpc]))
  | write hpc _ | refill1 hpc _ | refill2 hpc _ =>
    exact Or.inr (hstays _ rfl rfl rfl rfl rfl rfl (by simp) (by simp [hpc]))

/-- What has been taken over is what is no longer in the front end. -/
theorem Inv.taken_eq (hs : Inv s) (ht : Inv t) (h : Stays s t) : t.taken = s.taken := by
  have horder := ht.order
  rw [h.buffers, h.current, h.appended, ← hs.order] at horder
  exact List.append_cancel_right (List.append_cancel_right horder)

/-- The swap takes everything over. -/
theorem Inv.taken_swapSection (h : Inv s) (hpc : s.pc = .locking ∨ s.pc = .waiting) :
    s.swapSection.taken = s.appended := by
  have horder := (h.swapSection hpc).order
  have hlent : s.buffer1 ≠ none ∧ s.buffersToWrite = [] := by
    have hlent := h.lent
    rcases hpc with hpc | hpc <;> simp only [Lent, hpc] at hlent <;> exact ⟨hlent.1, hlent.2.2⟩
  obtain ⟨b, hb⟩ := Option.ne_none_iff_exists'.mp hlent.1
  have hempty := h.empty b (Or.inr (Or.inl hb))
  change s.swapSection.taken ++ messages s.buffersToWrite ++ messages [s.buffer1] = s.appended
    at horder
  rw [hlent.2, hb, messages_single, hempty, messages_nil, List.append_nil, List.append_nil] at horder
  exact horder

/-- The record of `stop()`, in any state. -/
structure StopInv (s : AsyncLogging) : Prop extends Inv s where
  early_le : s.early ≤ s.appended.length
  joined : s.owner = .returned → s.pc = .finished

theorem length_le_note (s : AsyncLogging) (logline : List Byte) :
    s.appended.length ≤ (s.note logline).length := by
  unfold note
  split
  · rw [List.length_append]
    exact Nat.le_add_right _ _
  · exact Nat.le_refl _

theorem StopInv.step (h : StopInv s) {l : AsyncStep} (hstep : system.step s l t) : StopInv t := by
  have hinv := h.toInv.step hstep
  obtain ⟨hl, hperf⟩ := hstep
  refine ⟨hinv, ?_, ?_⟩
  · cases l with
    | append logline memory hmem =>
      obtain ⟨_, _, _, hearly, _, happ⟩ := append_frame hperf
      rw [hearly, happ]
      exact Nat.le_trans h.early_le (length_le_note s logline)
    | callStop =>
      cases hperf
      exact Nat.le_refl _
    | start | storeRunning | notify | join =>
      cases hperf
      exact h.early_le
    | backend =>
      rcases threadFunc_cases hperf with ⟨_, rfl⟩ | hstays
      · exact h.early_le
      · rw [hstays.early, hstays.appended]
        exact h.early_le
  · intro hown
    cases l with
    | append logline memory hmem =>
      obtain ⟨hpc, _, howner, _⟩ := append_frame hperf
      rw [hpc]
      exact h.joined (howner ▸ hown)
    | start | callStop | storeRunning | notify =>
      cases hperf
      cases hown
    | join =>
      cases hperf
      exact hl.2
    | backend =>
      have howner : t.owner = s.owner := by
        rcases threadFunc_cases hperf with ⟨_, rfl⟩ | hstays
        · rfl
        · exact hstays.owner
      exact absurd (h.joined (howner ▸ hown)) hl.2

theorem reachable_stopInv (h : system.Reachable s) : StopInv s := by
  refine h.invariant ?_ ?_
  · rintro _ rfl
    exact ⟨new_inv, Nat.le_refl 0, fun hown => by cases hown⟩
  · intro s l t hs hstep
    exact hs.step hstep

/-- Every message appended before `stop()` was called has been handed over. -/
def Flushed (s : AsyncLogging) : Prop :=
  s.appended.take s.early <+: s.handed.flatMap FixedBuffer.records

/-- The thread is between its test of `running_` and its swap section, or the
    messages appended before `stop()` was called have been taken over already. -/
def Drains (s : AsyncLogging) : Prop :=
  s.pc = .locking ∨ s.pc = .waiting ∨ s.early ≤ s.taken.length

instance (s : AsyncLogging) : Decidable s.Drains := inferInstanceAs (Decidable (_ ∨ _ ∨ _))

/-- `running_` has been cleared. -/
structure Stopped (s : AsyncLogging) : Prop extends StopInv s where
  running : s.running = false
  past : s.owner = .notifying ∨ s.owner = .joining ∨ s.owner = .returned

/-- Once `running_` is cleared, no step changes whether the messages will be written. -/
theorem Stopped.step (h : Stopped s) {l : AsyncStep} (hstep : system.step s l t) :
    Stopped t ∧ (t.Drains ↔ s.Drains) := by
  have hinv := h.toStopInv.step hstep
  obtain ⟨hl, hperf⟩ := hstep
  have hown := h.past
  cases l with
  | append logline memory hmem =>
    obtain ⟨hpc, hrun, howner, hearly, htaken, _⟩ := append_frame hperf
    refine ⟨⟨hinv, hrun.trans h.running, howner ▸ hown⟩, ?_⟩
    rw [Drains, Drains, hpc, hearly, htaken]
  | start | callStop | storeRunning =>
    change s.owner = _ at hl
    rw [hl] at hown
    simp at hown
  | notify =>
    cases hperf
    exact ⟨⟨hinv, h.running, Or.inr (Or.inl rfl)⟩, Iff.rfl⟩
  | join =>
    cases hperf
    exact ⟨⟨hinv, h.running, Or.inr (Or.inr rfl)⟩, Iff.rfl⟩
  | backend =>
    rcases threadFunc_cases hperf with ⟨hpc, rfl⟩ | hstays
    · refine ⟨⟨hinv, h.running, hown⟩, ?_⟩
      -- the last swap: everything is taken over
      have hall : s.swapSection.Drains := by
        refine Or.inr (Or.inr ?_)
        rw [h.toInv.taken_swapSection hpc]
        exact h.early_le
      exact ⟨fun _ => hpc.elim Or.inl fun hw => Or.inr (Or.inl hw), fun _ => hall⟩
    · refine ⟨⟨hinv, hstays.running.trans h.running, hstays.owner ▸ hown⟩, ?_⟩
      have hlock : t.pc ≠ .locking := by
        intro hlock
        have hrun := hstays.locking hlock
        rw [h.running] at hrun
        cases hrun
      rw [Drains, Drains, hstays.early, h.toInv.taken_eq hinv.toInv hstays, hstays.waiting]
      simp [hlock, hstays.not_waiting]

/-- When `stop()` has returned the thread is at its end, and nothing is on its way. -/
theorem Stopped.flushed_iff (h : Stopped s) (hown : s.owner = .returned) :
    s.Flushed ↔ s.Drains := by
  have hpc := h.joined hown
  have htaken : s.taken = s.handed.flatMap FixedBuffer.records := by
    rw [taken, unwritten, hpc]
    exact List.append_nil _
  have horder := h.order
  rw [List.append_assoc, htaken] at horder
  rw [Drains, hpc, htaken, Flushed, ← horder]
  simp only [reduceCtorEq, false_or]
  constructor
  · intro hpre
    have hlen := hpre.length_le
    rw [horder, List.length_take] at hlen
    have hle := h.early_le
    omega
  · intro hle
    rw [List.take_append_of_le_length hle]
    exact List.take_prefix _ _

/-- **Stopping the logger flushes it** if and only if, when `stop()` clears
    `running_`, the thread has its swap section ahead in this round or has taken over
    everything before. -/
theorem stop_flushes_iff {u : AsyncLogging} {tr : List AsyncStep} (h : system.Reachable s)
    (hstore : system.step s .storeRunning t) (hrun : system.Run t tr u)
    (hreturned : u.owner = .returned) : u.Flushed ↔ s.Drains := by
  have hstop : Stopped t := by
    have hinv := (reachable_stopInv h).step hstore
    cases hstore.2
    exact ⟨hinv, rfl, Or.inl rfl⟩
  have hsame : t.Drains ↔ s.Drains := by
    cases hstore.2
    exact Iff.rfl
  have hend : Stopped u ∧ (u.Drains ↔ t.Drains) := by
    refine hrun.invariant (I := fun v => Stopped v ∧ (v.Drains ↔ t.Drains)) ?_ ⟨hstop, Iff.rfl⟩
    intro v l w hv hstep
    obtain ⟨hw, hiff⟩ := hv.1.step hstep
    exact ⟨hw, hiff.trans hv.2⟩
  rw [hend.1.flushed_iff hreturned, hend.2, hsame]

/-- The steps of a stop that finds the thread waiting. -/
def sampleStop : List AsyncStep :=
  [.notify, .backend, .backend, .backend, .backend, .backend, .backend, .backend, .backend, .backend,
    .join]

theorem stop_flushes_iff_waiting :
    ∃ s t u : AsyncLogging, system.Reachable s ∧ s.pc = .waiting ∧ s.early = 1 ∧
      system.step s .storeRunning t ∧ system.Run t sampleStop u ∧ u.Flushed := by
  let tr : List AsyncStep := [.start, .backend, .backend, .backend, appendZeroed [1], .callStop]
  have hval : (new.after tr).bind (fun s => (s.after [.storeRunning]).bind fun t =>
      (t.after sampleStop).map fun u => (s.pc, s.early, u.owner)) =
        some (.waiting, 1, .returned) := by
    decide
  obtain ⟨s, hs, hrest⟩ := Option.bind_eq_some_iff.mp hval
  obtain ⟨t, ht, hrest⟩ := Option.bind_eq_some_iff.mp hrest
  obtain ⟨u, hu, hproj⟩ := Option.map_eq_some_iff.mp hrest
  simp only [Prod.mk.injEq] at hproj
  obtain ⟨hpc, hearly, hown⟩ := hproj
  obtain ⟨v, hstore, hnil⟩ := (run_of_after ht).of_cons
  cases hnil.of_nil
  have hrun := run_of_after hu
  have hreach : system.Reachable s := ⟨new, tr, rfl, run_of_after hs⟩
  exact ⟨s, t, u, hreach, hpc, hearly, hstore, hrun,
    (stop_flushes_iff hreach hstore hrun hown).mpr (Or.inr (Or.inl hpc))⟩

/-- A message appended before `stop()` is lost when the thread has not tested
    `running_` yet. -/
theorem stop_loses_message :
    ¬∀ s : AsyncLogging, system.Reachable s → s.owner = .returned → s.Flushed := by
  intro hall
  let tr : List AsyncStep := [.start, appendZeroed [1], .callStop, .storeRunning, .backend, .backend,
    .backend, .notify, .join]
  have hval : (new.after tr).map (fun s => (s.owner, s.appended, s.early,
      s.handed.map FixedBuffer.records)) = some (.returned, [[1]], 1, []) := by
    decide
  obtain ⟨s, hs, hproj⟩ := Option.map_eq_some_iff.mp hval
  simp only [Prod.mk.injEq] at hproj
  obtain ⟨hown, happ, hearly, hhanded⟩ := hproj
  have hflushed := hall s ⟨new, tr, rfl, run_of_after hs⟩ hown
  rw [Flushed, happ, hearly, List.map_eq_nil_iff.mp hhanded] at hflushed
  simp at hflushed

end AsyncLogging

end DamnWebServer
