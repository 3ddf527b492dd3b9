import DamnWebServer.Log.AsyncLogging

/-!
# The circulation of the log buffers

Buffers go from the spare slots to the front end, through the queue to the thread
that writes them, and back. Two facts are carried through every step: there is
always a buffer where one is needed, and the messages handed over, on their way,
queued and current are all messages in the order of their `append`s.
-/

namespace DamnWebServer

/-- The message that the step appends: one that no buffer has room for is dropped. -/
def AsyncStep.message : AsyncStep → Option (List Byte)
  | .append logline _ _ => if logline.length < largeBufferSize then some logline else none
  | .start | .callStop | .storeRunning | .notify | .join | .backend => none

namespace AsyncLogging

/-- The messages in some buffers. -/
def messages (ps : List (Option LogBuffer)) : List (List Byte) :=
  ps.flatMap fun p => p.elim [] FixedBuffer.records

@[simp] theorem messages_append (ps qs : List (Option LogBuffer)) :
    messages (ps ++ qs) = messages ps ++ messages qs :=
  List.flatMap_append

@[simp] theorem messages_single (b : LogBuffer) : messages [some b] = b.records :=
  List.append_nil _

@[simp] theorem messages_nil : messages [] = [] := rfl

/-- The buffers of `buffers_to_write` that have not been handed over. -/
def unwritten (s : AsyncLogging) : List (Option LogBuffer) :=
  match s.pc with
  | .writing i => s.buffersToWrite.drop i
  | _ => []

/-- The messages that the swap sections have taken over so far. -/
def taken (s : AsyncLogging) : List (List Byte) :=
  s.handed.flatMap FixedBuffer.records ++ messages s.unwritten

/-- What the thread has of its own, and what it has lent out: `buffer1` in every
    round, `buffer2` when there was no `next_buffer_`. -/
def Lent (s : AsyncLogging) : Prop :=
  match s.pc with
  | .notStarted | .entry => s.buffersToWrite = []
  | .whileTest | .locking | .waiting | .leaving | .finished =>
    s.buffer1 ≠ none ∧ s.buffer2 ≠ none ∧ s.buffersToWrite = []
  | .writing _ | .trimming | .refilling1 =>
    s.buffer1 = none ∧ s.buffersToWrite ≠ [] ∧ (s.buffer2 = none → 2 ≤ s.buffersToWrite.length)
  | .refilling2 => s.buffer1 ≠ none ∧ (s.buffer2 = none → s.buffersToWrite ≠ [])
  | .clearing => s.buffer1 ≠ none ∧ s.buffer2 ≠ none

structure Inv (s : AsyncLogging) : Prop where
  owner : s.owner = .created → s.pc = .notStarted
  current : s.currentBuffer ≠ none
  buffers : none ∉ s.buffers
  toWrite : none ∉ s.buffersToWrite
  /-- The spare buffer is missing only where a full one has been queued. -/
  spare : s.nextBuffer = none → s.buffers ≠ []
  lent : s.Lent
  empty : ∀ b, s.nextBuffer = some b ∨ s.buffer1 = some b ∨ s.buffer2 = some b → b.records = []
  order : s.taken ++ messages s.buffers ++ messages [s.currentBuffer] = s.appended

variable {s t : AsyncLogging}

theorem new_inv : Inv new where
  owner _ := rfl
  current := by simp [new]
  buffers := List.not_mem_nil
  toWrite := List.not_mem_nil
  spare h := by simp [new] at h
  lent := rfl
  empty b h := by
    simp only [new, Option.some.injEq, reduceCtorEq, or_false] at h
    rw [← h]
    rfl
  order := rfl

/-- A message that fits the current buffer. -/
theorem Inv.append_current (h : Inv s) {current : LogBuffer} {logline : List Byte}
    (hcur : s.currentBuffer = some current) (hfit : logline.length < current.avail) :
    Inv { s with currentBuffer := some (current.append logline), appended := s.note logline } where
  owner := h.owner
  current := Option.some_ne_none _
  buffers := h.buffers
  toWrite := h.toWrite
  spare := h.spare
  lent := h.lent
  empty := h.empty
  order := by
    have hlen : logline.length < largeBufferSize := Nat.lt_of_lt_of_le hfit (Nat.sub_le _ _)
    have horder := h.order
    rw [hcur, messages_single] at horder
    rw [messages_single, FixedBuffer.append_records hfit, ← List.append_assoc, note, if_pos hlen,
      ← horder]
    rfl

/-- A message that does not fit: the current buffer is queued, and an empty one
    takes its place. -/
theorem Inv.append_switch (h : Inv s) {fresh : LogBuffer} (hfresh : fresh.records = [])
    (logline : List Byte) :
    Inv { s with
      buffers := s.buffers ++ [s.currentBuffer]
      nextBuffer := none
      currentBuffer := some ((s.nextBuffer.getD fresh).append logline)
      appended := s.note logline } where
  owner := h.owner
  current := Option.some_ne_none _
  buffers := by
    intro hmem
    rcases List.mem_append.mp hmem with hmem | hmem
    · exact h.buffers hmem
    · exact h.current (List.mem_singleton.mp hmem).symm
  toWrite := h.toWrite
  spare _ := List.append_ne_nil_of_right_ne_nil _ (List.cons_ne_nil _ _)
  lent := h.lent
  empty b hb := by
    rcases hb with hb | hb
    · cases hb
    · exact h.empty b (Or.inr hb)
  order := by
    have hempty : (s.nextBuffer.getD fresh).records = [] := by
      cases hnext : s.nextBuffer with
      | none => exact hfresh
      | some b => exact h.empty b (Or.inl hnext)
    rw [messages_single, messages_append, ← List.append_assoc, note]
    by_cases hlen : logline.length < largeBufferSize
    · rw [if_pos hlen, FixedBuffer.append_records (by rwa [FixedBuffer.avail_of_empty hempty]),
        hempty, ← h.order]
      rfl
    · rw [if_neg hlen, FixedBuffer.append_dropped (by rwa [FixedBuffer.avail_of_empty hempty]),
        hempty, List.append_nil]
      exact h.order

theorem Inv.append (h : Inv s) {fresh : LogBuffer} (hfresh : fresh.records = [])
    (logline : List Byte) : ∃ t, s.append logline fresh = .ok t ∧ Inv t := by
  obtain ⟨current, hcur⟩ := Option.ne_none_iff_exists'.mp h.current
  by_cases hfit : logline.length < current.avail
  · refine ⟨_, ?_, h.append_current hcur hfit⟩
    simp only [AsyncLogging.append, hcur, deref, bind, Except.bind, if_pos hfit]
    rfl
  · refine ⟨_, ?_, h.append_switch hfresh logline⟩
    simp only [AsyncLogging.append, hcur, deref, bind, Except.bind, if_neg hfit]
    rfl

/-- **The swap section** puts `buffer1` in the place of the current buffer, and
    `buffer2` in that of a missing spare one. -/
theorem Inv.swapSection (h : Inv s) (hpc : s.pc = .locking ∨ s.pc = .waiting) :
    Inv s.swapSection := by
  have hlent : s.buffer1 ≠ none ∧ s.buffer2 ≠ none ∧ s.buffersToWrite = [] := by
    have hlent := h.lent
    rcases hpc with hpc | hpc <;> simpa only [Lent, hpc] using hlent
  obtain ⟨hone, htwo, hnil⟩ := hlent
  have hunwritten : s.unwritten = [] := by
    rcases hpc with hpc | hpc <;> rw [unwritten, hpc]
  refine {
    owner := ?_
    current := hone
    buffers := ?_
    toWrite := ?_
    spare := ?_
    lent := ?_
    empty := ?_
    order := ?_ }
  · intro hown
    have hnot := h.owner hown
    rcases hpc with hpc | hpc <;> rw [hpc] at hnot <;> cases hnot
  · change none ∉ s.buffersToWrite
    exact h.toWrite
  · change none ∉ s.buffers ++ [s.currentBuffer]
    intro hmem
    rcases List.mem_append.mp hmem with hmem | hmem
    · exact h.buffers hmem
    · exact h.current (List.mem_singleton.mp hmem).symm
  · intro hnext
    change (if s.nextBuffer.isNone then s.buffer2 else s.nextBuffer) = none at hnext
    cases hspare : s.nextBuffer with
    | none =>
      rw [hspare] at hnext
      exact absurd hnext htwo
    | some b =>
      rw [hspare] at hnext
      cases hnext
  · refine ⟨rfl, List.append_ne_nil_of_right_ne_nil _ (List.cons_ne_nil _ _), ?_⟩
    intro hlent
    change (if s.nextBuffer.isNone then none else s.buffer2) = none at hlent
    change 2 ≤ (s.buffers ++ [s.currentBuffer]).length
    cases hspare : s.nextBuffer with
    | none =>
      have hpos := List.length_pos_of_ne_nil (h.spare hspare)
      rw [List.length_append, List.length_singleton]
      omega
    | some b =>
      rw [hspare] at hlent
      exact absurd hlent htwo
  · intro b hb
    simp only [AsyncLogging.swapSection, reduceCtorEq, false_or] at hb
    rcases hb with hb | hb
    · split at hb
      · exact h.empty b (Or.inr (Or.inr hb))
      · exact h.empty b (Or.inl hb)
    · split at hb
      · cases hb
      · exact h.empty b (Or.inr (Or.inr hb))
  · obtain ⟨b, hb⟩ := Option.ne_none_iff_exists'.mp hone
    have hempty := h.empty b (Or.inr (Or.inl hb))
    have horder := h.order
    rw [taken, hunwritten, messages_nil, List.append_nil, List.append_assoc,
      ← messages_append] at horder
    change s.handed.flatMap FixedBuffer.records ++ messages (s.buffers ++ [s.currentBuffer]) ++
      messages s.buffersToWrite ++ messages [s.buffer1] = s.appended
    rw [hnil, hb, messages_single, hempty, messages_nil, List.append_nil, List.append_nil]
    exact horder

/-- A step of the thread that moves no buffer in or out of the front end, and hands
    none over. -/
theorem Inv.local (h : Inv s) {pc : BackPc} {one two : Option LogBuffer}
    {toWrite : List (Option LogBuffer)} (hstarted : s.pc ≠ .notStarted)
    (htoWrite : none ∉ toWrite)
    (hempty : ∀ b, one = some b ∨ two = some b → b.records = [])
    (hlent : Lent { s with pc := pc, buffer1 := one, buffer2 := two, buffersToWrite := toWrite })
    (htaken : taken { s with pc := pc, buffer1 := one, buffer2 := two, buffersToWrite := toWrite } =
      s.taken) :
    Inv { s with pc := pc, buffer1 := one, buffer2 := two, buffersToWrite := toWrite } where
  owner hown := absurd (h.owner hown) hstarted
  current := h.current
  buffers := h.buffers
  toWrite := htoWrite
  spare := h.spare
  lent := hlent
  empty b hb := hb.elim (fun hb => h.empty b (Or.inl hb)) (hempty b)
  order := by
    rw [htaken]
    exact h.order

/-- The last buffer of a vector without null pointers. -/
theorem takeBack_ok {bs : List (Option LogBuffer)} (hne : bs ≠ []) (hnull : none ∉ bs) :
    ∃ b, bs.getLast? = some (some b) ∧ takeBack bs = .ok (b.reset, bs.dropLast) := by
  have hlast := List.getLast?_eq_some_getLast hne
  have hmem := List.getLast_mem hne
  cases hp : bs.getLast hne with
  | none =>
    rw [hp] at hmem
    exact absurd hmem hnull
  | some b =>
    rw [hp] at hlast
    refine ⟨b, hlast, ?_⟩
    rw [takeBack, hlast]
    rfl

/-- One `output.append`: the message moves from the way to the file. -/
theorem Inv.write (h : Inv s) {i : Nat} (hpc : s.pc = .writing i) {b : LogBuffer}
    (hb : s.buffersToWrite[i]? = some (some b)) :
    Inv { s with pc := .writing (i + 1), handed := s.handed ++ [b] } where
  owner hown := by
    have hnot := h.owner hown
    rw [hpc] at hnot
    cases hnot
  current := h.current
  buffers := h.buffers
  toWrite := h.toWrite
  spare := h.spare
  lent := by
    have hlent := h.lent
    simp only [Lent, hpc] at hlent
    exact hlent
  empty := h.empty
  order := by
    have hdrop : s.buffersToWrite.drop i = some b :: s.buffersToWrite.drop (i + 1) := by
      obtain ⟨hi, hget⟩ := List.getElem?_eq_some_iff.mp hb
      rw [List.drop_eq_getElem_cons hi, hget]
    have horder := h.order
    rw [taken, unwritten, hpc] at horder
    simp only [hdrop] at horder
    rw [← horder]
    simp [taken, unwritten, messages, List.flatMap_append]

/-- Two buffers stay: as many as can have been lent out. -/
theorem Inv.trim (h : Inv s) (hpc : s.pc = .trimming) :
    Inv { s with pc := .refilling1, buffersToWrite := s.buffersToWrite.take 2 } := by
  have hlent := h.lent
  simp only [Lent, hpc] at hlent
  obtain ⟨hone, hne, htwo⟩ := hlent
  refine h.local (by rw [hpc]; decide) (fun hmem => h.toWrite (List.mem_of_mem_take hmem))
    (fun b hb => h.empty b (Or.inr hb)) ⟨hone, ?_, ?_⟩ ?_
  · intro hnil
    rw [List.take_eq_nil_iff] at hnil
    rcases hnil with hnil | hnil
    · cases hnil
    · exact hne hnil
  · intro hlent
    rw [List.length_take]
    exact Nat.le_min.mpr ⟨Nat.le_refl 2, htwo hlent⟩
  · simp only [taken, unwritten, hpc]

/-- `buffer1` comes back, and a buffer is left for `buffer2` if that was lent too. -/
theorem Inv.refill1 (h : Inv s) (hpc : s.pc = .refilling1) (b : LogBuffer) :
    Inv { s with
      pc := .refilling2
      buffer1 := some b.reset
      buffersToWrite := s.buffersToWrite.dropLast } := by
  have hlent := h.lent
  simp only [Lent, hpc] at hlent
  obtain ⟨_, _, htwo⟩ := hlent
  refine h.local (by rw [hpc]; decide) (fun hmem => h.toWrite (List.mem_of_mem_dropLast hmem))
    ?_ ⟨Option.some_ne_none _, fun hlent hnil => ?_⟩ ?_
  · rintro c (hc | hc)
    · cases hc
      rfl
    · exact h.empty c (Or.inr (Or.inr hc))
  · have hlen := htwo hlent
    have hzero := congrArg List.length hnil
    rw [List.length_dropLast, List.length_nil] at hzero
    omega
  · simp only [taken, unwritten, hpc]

theorem Inv.refill2 (h : Inv s) (hpc : s.pc = .refilling2) (b : LogBuffer) :
    Inv { s with
      pc := .clearing
      buffer2 := some b.reset
      buffersToWrite := s.buffersToWrite.dropLast } := by
  have hlent := h.lent
  simp only [Lent, hpc] at hlent
  refine h.local (by rw [hpc]; decide) (fun hmem => h.toWrite (List.mem_of_mem_dropLast hmem))
    ?_ ⟨hlent.1, Option.some_ne_none _⟩ ?_
  · rintro c (hc | hc)
    · exact h.empty c (Or.inr (Or.inl hc))
    · cases hc
      rfl
  · simp only [taken, unwritten, hpc]

/-- The loop over `buffers_to_write` writes the next buffer, or ends. -/
theorem Inv.writeNext (h : Inv s) {i : Nat} (hpc : s.pc = .writing i) :
    ∃ t, s.threadFunc = .ok t ∧ Inv t := by
  cases hp : s.buffersToWrite[i]? with
  | none =>
    have hlent := h.lent
    simp only [Lent, hpc] at hlent
    refine ⟨{ s with pc := .trimming }, by simp only [AsyncLogging.threadFunc, hpc, hp], ?_⟩
    refine h.local (by rw [hpc]; exact nofun) h.toWrite (fun b hb => h.empty b (Or.inr hb)) hlent ?_
    -- nothing is left behind the last element
    have hdrop : s.buffersToWrite.drop i = [] :=
      List.drop_eq_nil_of_le (List.getElem?_eq_none_iff.mp hp)
    simp only [taken, unwritten, hpc, hdrop]
  | some p =>
    cases p with
    | none => exact absurd (List.mem_of_getElem? hp) h.toWrite
    | some b =>
      refine ⟨_, ?_, h.write hpc hp⟩
      simp only [AsyncLogging.threadFunc, hpc, hp]
      rfl

/-- `buffer2` was lent and comes back, or it has been here all the time. -/
theorem Inv.returnBuffer2 (h : Inv s) (hpc : s.pc = .refilling2) :
    ∃ t, s.threadFunc = .ok t ∧ Inv t := by
  have hlent := h.lent
  simp only [Lent, hpc] at hlent
  obtain ⟨hone, htwo⟩ := hlent
  cases hbuf : s.buffer2 with
  | none =>
    obtain ⟨b, _, htake⟩ := takeBack_ok (htwo hbuf) h.toWrite
    refine ⟨_, ?_, h.refill2 hpc b⟩
    simp only [AsyncLogging.threadFunc, hpc, hbuf, htake]
    rfl
  | some b =>
    refine ⟨{ s with pc := .clearing }, ?_, ?_⟩
    · simp only [AsyncLogging.threadFunc, hpc, hbuf]
      rfl
    · refine h.local (by rw [hpc]; exact nofun) h.toWrite (fun b hb => h.empty b (Or.inr hb))
        ⟨hone, ?_⟩ ?_
      · change s.buffer2 ≠ none
        rw [hbuf]
        exact Option.some_ne_none b
      · simp only [taken, unwritten, hpc]

theorem Inv.threadFunc (h : Inv s) (hstarted : s.pc ≠ .notStarted) :
    ∃ t, s.threadFunc = .ok t ∧ Inv t := by
  have hlent := h.lent
  have hspares : ∀ b, s.buffer1 = some b ∨ s.buffer2 = some b → b.records = [] :=
    fun b hb => h.empty b (Or.inr hb)
  cases hpc : s.pc with
  | notStarted => exact absurd hpc hstarted
  | finished => exact ⟨s, by rw [AsyncLogging.threadFunc, hpc], h⟩
  | entry =>
    simp only [Lent, hpc] at hlent
    refine ⟨_, by rw [AsyncLogging.threadFunc, hpc], ?_⟩
    refine h.local hstarted h.toWrite ?_ ⟨Option.some_ne_none _, Option.some_ne_none _, hlent⟩ ?_
    · rintro b (hb | hb) <;> cases hb <;> rfl
    · simp only [taken, unwritten, hpc]
  | whileTest =>
    simp only [Lent, hpc] at hlent
    refine ⟨_, by rw [AsyncLogging.threadFunc, hpc], ?_⟩
    refine h.local hstarted h.toWrite hspares ?_ ?_
    · cases s.running <;> exact hlent
    · cases s.running <;> simp [taken, unwritten, hpc]
  | locking =>
    refine ⟨_, by rw [AsyncLogging.threadFunc, hpc], ?_⟩
    simp only [Lent, hpc] at hlent
    split
    · refine h.local hstarted h.toWrite hspares hlent ?_
      simp only [taken, unwritten, hpc]
    · exact h.swapSection (Or.inl hpc)
  | waiting =>
    exact ⟨_, by rw [AsyncLogging.threadFunc, hpc], h.swapSection (Or.inr hpc)⟩
  | writing i => exact h.writeNext hpc
  | trimming => exact ⟨_, by rw [AsyncLogging.threadFunc, hpc], h.trim hpc⟩
  | refilling1 =>
    simp only [Lent, hpc] at hlent
    obtain ⟨b, _, htake⟩ := takeBack_ok hlent.2.1 h.toWrite
    refine ⟨_, ?_, h.refill1 hpc b⟩
    simp only [AsyncLogging.threadFunc, hpc, hlent.1, htake]
    rfl
  | refilling2 => exact h.returnBuffer2 hpc
  | clearing =>
    simp only [Lent, hpc] at hlent
    refine ⟨_, by rw [AsyncLogging.threadFunc, hpc], ?_⟩
    refine h.local hstarted List.not_mem_nil hspares ⟨hlent.1, hlent.2, rfl⟩ ?_
    simp only [taken, unwritten, hpc]
  | leaving =>
    simp only [Lent, hpc] at hlent
    refine ⟨_, by rw [AsyncLogging.threadFunc, hpc], ?_⟩
    refine h.local hstarted h.toWrite hspares hlent ?_
    simp only [taken, unwritten, hpc]

/-- A step of the owner after `start()`. -/
theorem Inv.owned (h : Inv s) {owner : OwnerPc} (hne : owner ≠ .created) (running : Bool)
    (early : Nat) : Inv { s with owner := owner, running := running, early := early } where
  owner hown := absurd hown hne
  current := h.current
  buffers := h.buffers
  toWrite := h.toWrite
  spare := h.spare
  lent := h.lent
  empty := h.empty
  order := h.order

theorem Inv.start (h : Inv s) (hown : s.owner = .created) :
    Inv { s with owner := .started, running := true, pc := .entry } := by
  have hpc := h.owner hown
  have hlent := h.lent
  have horder := h.order
  simp only [Lent, taken, unwritten, hpc] at hlent horder
  refine {
    owner := fun hno => by cases hno
    current := h.current
    buffers := h.buffers
    toWrite := h.toWrite
    spare := h.spare
    lent := hlent
    empty := h.empty
    order := ?_ }
  simp only [taken, unwritten]
  exact horder

/-- **One step** of anybody returns and keeps the invariant. -/
theorem Inv.perform (h : Inv s) {l : AsyncStep} (hl : s.Enabled l) :
    ∃ t, s.perform l = .ok t ∧ Inv t := by
  cases l with
  | append logline memory hmem => exact h.append rfl logline
  | start => exact ⟨_, rfl, h.start hl⟩
  | callStop => exact ⟨_, rfl, h.owned (by decide) _ _⟩
  | storeRunning => exact ⟨_, rfl, h.owned (by decide) _ _⟩
  | notify => exact ⟨_, rfl, h.owned (by decide) _ _⟩
  | join => exact ⟨_, rfl, h.owned (by decide) _ _⟩
  | backend => exact h.threadFunc hl.1

theorem Inv.step (h : Inv s) {l : AsyncStep} (hstep : system.step s l t) : Inv t := by
  obtain ⟨u, hu, hinv⟩ := h.perform hstep.1
  cases hu.symm.trans hstep.2
  exact hinv

theorem reachable_inv (h : system.Reachable s) : Inv s := by
  refine h.invariant ?_ ?_
  · rintro _ rfl
    exact new_inv
  · intro s l t hs hstep
    exact hs.step hstep

/-- What an `append` leaves alone. -/
theorem append_frame {logline : List Byte} {fresh : LogBuffer}
    (h : s.append logline fresh = .ok t) :
    t.pc = s.pc ∧ t.running = s.running ∧ t.owner = s.owner ∧ t.early = s.early ∧
      t.taken = s.taken ∧ t.appended = s.note logline := by
  obtain ⟨current, _, hrest⟩ := bind_eq_ok h
  split at hrest
  · cases hrest
    exact ⟨rfl, rfl, rfl, rfl, rfl, rfl⟩
  · obtain ⟨next, _, hend⟩ := bind_eq_ok hrest
    cases hend
    exact ⟨rfl, rfl, rfl, rfl, rfl, rfl⟩

theorem threadFunc_appended (h : s.threadFunc = .ok t) : t.appended = s.appended := by
  cases backStep_of_threadFunc h <;> rfl

/-- The record is that of the `append`s. -/
theorem step_appended {l : AsyncStep} (hstep : system.step s l t) :
    t.appended = s.appended ++ l.message.toList := by
  obtain ⟨_, hperf⟩ := hstep
  cases l with
  | append logline memory hmem =>
    rw [(append_frame hperf).2.2.2.2.2, note, AsyncStep.message]
    split
    · rfl
    · exact (List.append_nil _).symm
  | backend => exact (threadFunc_appended hperf).trans (List.append_nil _).symm
  | start | callStop | storeRunning | notify | join =>
    cases hperf
    exact (List.append_nil _).symm

theorem run_appended {tr : List AsyncStep} (h : system.Run new tr s) :
    s.appended = tr.filterMap AsyncStep.message := by
  refine h.trace_invariant (I := fun tr s => s.appended = tr.filterMap AsyncStep.message) rfl ?_
  intro tr u l v hu hstep
  rw [step_appended hstep, hu, List.filterMap_append]
  cases hl : l.message <;> simp [hl]

/-- The buffers that may become `current_buffer_`, now or later. -/
def Spare (s : AsyncLogging) (b : LogBuffer) : Prop :=
  s.nextBuffer = some b ∨ s.buffer1 = some b ∨ s.buffer2 = some b

/-- **Nothing is lost, repeated or reordered.** In every interleaving, the messages of
    the buffers handed to `Log_File::append`, of the buffers still to be written, of
    `buffers_` and of `current_buffer_` are all the messages in the order of their
    `append`s, and the spare buffers are empty. -/
theorem messages_in_order {tr : List AsyncStep} (h : system.Run new tr s) :
    s.handed.flatMap FixedBuffer.records ++ messages s.unwritten ++ messages s.buffers ++
        messages [s.currentBuffer] = s.appended ∧
      s.appended = tr.filterMap AsyncStep.message ∧
      ∀ b, s.Spare b → b.records = [] ∧ b.cur = 0 := by
  have hinv := reachable_inv ⟨new, tr, rfl, h⟩
  refine ⟨hinv.order, run_appended h, fun b hb => ?_⟩
  have hempty := hinv.empty b hb
  refine ⟨hempty, ?_⟩
  rw [← b.length_records, hempty]
  rfl

/-- An `append` that would make a new buffer of zeros. -/
def appendZeroed (logline : List Byte) : AsyncStep :=
  .append logline (List.replicate largeBufferSize 0) List.length_replicate

theorem messages_in_order_two :
    ∃ (tr : List AsyncStep) (s : AsyncLogging), system.Run new tr s ∧
      s.handed.map FixedBuffer.records = [[[1], [2]]] ∧
      messages s.unwritten = [] ∧ messages [s.currentBuffer] = [[3]] ∧
      s.handed.flatMap FixedBuffer.records ++ messages s.unwritten ++ messages s.buffers ++
        messages [s.currentBuffer] = s.appended ∧
      s.appended = tr.filterMap AsyncStep.message := by
  -- two messages are swapped out and written, a third one comes meanwhile
  let tr : List AsyncStep := [appendZeroed [1], .start, appendZeroed [2], .backend, .backend,
    .backend, .backend, appendZeroed [3], .backend]
  have hval : (new.after tr).map (fun s => (s.handed.map FixedBuffer.records,
      messages s.unwritten, messages [s.currentBuffer])) = some ([[[1], [2]]], [], [[3]]) := by
    decide
  obtain ⟨s, hs, hproj⟩ := Option.map_eq_some_iff.mp hval
  simp only [Prod.mk.injEq] at hproj
  have hrun := run_of_after hs
  obtain ⟨horder, happended, _⟩ := messages_in_order hrun
  exact ⟨tr, s, hrun, hproj.1, hproj.2.1, hproj.2.2, horder, happended⟩

/-- **The circulation never runs dry.** Whoever dereferences or moves
    `current_buffer_` finds a buffer; every round of `thread_func` begins with
    `buffer1` and `buffer2`; a buffer that is written is there, and so is the last one
    of `buffers_to_write` where it is taken back. No step fails. -/
theorem buffers_never_run_dry (h : system.Reachable s) :
    s.currentBuffer ≠ none ∧
      (s.pc = .whileTest ∨ s.pc = .locking ∨ s.pc = .waiting →
        s.buffer1 ≠ none ∧ s.buffer2 ≠ none) ∧
      (∀ i, s.pc = .writing i → none ∉ s.buffersToWrite) ∧
      (s.pc = .refilling1 ∧ s.buffer1 = none ∨ s.pc = .refilling2 ∧ s.buffer2 = none →
        ∃ b, s.buffersToWrite.getLast? = some (some b)) ∧
      ∀ l, s.Enabled l → ∃ t, s.perform l = .ok t := by
  have hinv := reachable_inv h
  have hlent := hinv.lent
  refine ⟨hinv.current, ?_, fun _ _ => hinv.toWrite, ?_, ?_⟩
  · rintro (hpc | hpc | hpc) <;> simp only [Lent, hpc] at hlent <;> exact ⟨hlent.1, hlent.2.1⟩
  · intro hback
    have hne : s.buffersToWrite ≠ [] := by
      rcases hback with ⟨hpc, _⟩ | ⟨hpc, hnone⟩ <;> simp only [Lent, hpc] at hlent
      · exact hlent.2.1
      · exact hlent.2 hnone
    obtain ⟨b, hb, _⟩ := takeBack_ok hne hinv.toWrite
    exact ⟨b, hb⟩
  · intro l hl
    obtain ⟨t, ht, _⟩ := hinv.perform hl
    exact ⟨t, ht⟩

theorem buffers_never_run_dry_refill :
    ∃ s : AsyncLogging, system.Reachable s ∧ s.pc = .refilling1 ∧ s.buffer1.isNone = true ∧
      ∃ b, s.buffersToWrite.getLast? = some (some b) := by
  let tr : List AsyncStep := [.start, .backend, .backend, .backend, .backend, .backend, .backend,
    .backend]
  have hval : (new.after tr).map (fun s => (s.pc, s.buffer1.isNone)) = some (.refilling1, true) := by
    decide
  obtain ⟨s, hs, hproj⟩ := Option.map_eq_some_iff.mp hval
  simp only [Prod.mk.injEq] at hproj
  obtain ⟨hpc, hnone⟩ := hproj
  have hreach : system.Reachable s := ⟨new, tr, rfl, run_of_after hs⟩
  have hdry := buffers_never_run_dry hreach
  exact ⟨s, hreach, hpc, hnone, hdry.2.2.2.1 (Or.inl ⟨hpc, Option.isNone_iff_eq_none.mp hnone⟩)⟩

end AsyncLogging

end DamnWebServer
