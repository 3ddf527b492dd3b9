import DamnWebServer.Lib.Journal
import DamnWebServer.Log.AsyncStop
import DamnWebServer.Log.LogFile

/-!
# From the producers to the log files

`thread_func` with its `Log_File output`: made in front of the loop, appended to for each
buffer, flushed behind them. What becomes of a message from its `append` to the file it
stands in is that of a journal in volumes: the messages are logged one by one, and
stored a buffer at a time, in the last file.
-/

namespace DamnWebServer

/-- The asynchronous logger, and the `Log_File` of its thread. -/
structure LogPipeline where
  basename : List Byte
  rollSize : Int
  front : AsyncLogging
  /-- `output`, once `thread_func` has made it. -/
  output : Option LogFile

structure PipelineStep where
  step : AsyncStep
  /-- What the calls of `fwrite_unlocked` do, if the step makes any. -/
  results : Nat → FwriteResult
  /-- So many rounds of the loop around them are followed. -/
  fuel : Nat

namespace LogPipeline

/-- `Async_Logging(basename, roll_size, flush_interval)`. -/
def new (basename : List Byte) (rollSize : Int) : LogPipeline where
  basename := basename
  rollSize := rollSize
  front := .new
  output := none

/-- What the statement of `thread_func` does to `output`. The third argument of its
    constructor is `false`, and the fourth is left to its default. -/
def writeOutput (env : LogEnv) (results : Nat → FwriteResult) (fuel : Nat) (p : LogPipeline) :
    Except Fault (Option LogFile) :=
  match p.front.pc with
  | .entry => .ok (some (.new env p.basename p.rollSize 0 1024))
  | .writing i =>
    match p.front.buffersToWrite[i]? with
    | some q => do
      let b ← deref q
      let output ← deref p.output
      let output ← output.append env results fuel b.slice
      return some output
    | none => .ok p.output
  | .clearing | .leaving => do
    let output ← deref p.output
    let output ← output.flush
    return some output
  | .notStarted | .whileTest | .locking | .waiting | .trimming | .refilling1 | .refilling2
  | .finished => .ok p.output

def perform (env : LogEnv) (p : LogPipeline) (l : PipelineStep) : Except Fault LogPipeline := do
  let front ← p.front.perform l.step
  match l.step with
  | .backend =>
    let output ← p.writeOutput env l.results l.fuel
    return { p with front := front, output := output }
  | .append _ _ _ | .start | .callStop | .storeRunning | .notify | .join =>
    return { p with front := front }

/-- Any number of producers, the thread and the owner, and a disk that writes as it
    likes. -/
def system (env : LogEnv) (basename : List Byte) (rollSize : Int) :
    Transition.System LogPipeline PipelineStep where
  init p := p = new basename rollSize
  step p l q := p.front.Enabled l.step ∧ p.perform env l = .ok q

/-- The state after some steps, if they are enabled and return. -/
def after (env : LogEnv) (p : LogPipeline) (tr : List PipelineStep) : Option LogPipeline :=
  Transition.System.follow (fun p l => p.front.Enabled l.step) (fun p l => (p.perform env l).toOption)
    p tr

/-- The files, in the order they were opened. -/
def files (p : LogPipeline) : List FileUtil := p.output.elim [] LogFile.files

end LogPipeline

namespace LogFile

variable {env : LogEnv} {s t : LogFile} {f g : FileUtil} {results : Nat → FwriteResult} {fuel : Nat}
  {data : List Byte}

/-- Nothing has changed, or another file has been opened. -/
def Rolls (fs gs : List FileUtil) : Prop := gs = fs ∨ ∃ name, gs = fs ++ [.new name]

theorem rollFile_rolls (env : LogEnv) (s : LogFile) : Rolls s.files (s.rollFile env).2.files := by
  rw [rollFile]
  split
  · exact Or.inr ⟨_, rfl⟩
  · exact Or.inl rfl

theorem checkPeriod_rolls (env : LogEnv) (s : LogFile) : Rolls s.files (s.checkPeriod env).files := by
  rw [checkPeriod]
  dsimp only
  split
  · exact rollFile_rolls env _
  · split
    · exact Or.inl rfl
    · exact Or.inl rfl

/-- Behind the write the current file is `g`, and it may be the last but one. -/
theorem afterWrite_rolls (env : LogEnv) (s : LogFile) (g : FileUtil) :
    Rolls (s.closed ++ [g]) (s.afterWrite env g).files := by
  rw [afterWrite]
  dsimp only
  split
  · exact rollFile_rolls env _
  · split
    · exact checkPeriod_rolls env _
    · exact Or.inl rfl

/-- A record goes to the end of the last file, and then another may be opened. -/
theorem append_files (h : s.append env results fuel data = .ok t) :
    (∃ fs f g, s.files = fs ++ [f] ∧ FileUtil.Holds f g data data.length ∧
      Rolls (fs ++ [g]) t.files) ∧ ∃ g, t.file = some g := by
  obtain ⟨f, hf, _⟩ := bind_eq_ok h
  have hfile : s.file = some f := AsyncLogging.deref_eq_ok hf
  obtain ⟨g, hg, rfl⟩ := append_ok hfile h
  have hfiles : s.files = s.closed ++ [f] := by rw [files, hfile, Option.toList_some]
  exact ⟨⟨s.closed, f, g, hfiles, hg, afterWrite_rolls env s g⟩, afterWrite_file g⟩

theorem flush_eq (h : s.flush = .ok t) : t = s := by
  obtain ⟨f, _, hend⟩ := bind_eq_ok h
  cases hend
  rfl

end LogFile

namespace LogPipeline

variable {env : LogEnv} {p q : LogPipeline} {l : PipelineStep}

/-- What a step does to the files and to the buffers handed over. -/
inductive FileStep (env : LogEnv) (p q : LogPipeline) : Prop where
  /-- Neither is touched. -/
  | none (hpc : p.front.pc ≠ .entry) (hout : q.output = p.output)
      (hhanded : q.front.handed = p.front.handed)
  /-- `output` is made. -/
  | made (hpc : p.front.pc = .entry) (hout : q.output = some (.new env p.basename p.rollSize 0 1024))
      (hhanded : q.front.handed = p.front.handed)
  /-- A buffer is appended to the last file. -/
  | wrote {b : LogBuffer} {fs : List FileUtil} {f g : FileUtil} (hfiles : p.files = fs ++ [f])
      (hholds : FileUtil.Holds f g b.slice b.slice.length)
      (hrolls : LogFile.Rolls (fs ++ [g]) q.files)
      (hopen : ∃ s g, q.output = some s ∧ s.file = some g)
      (hhanded : q.front.handed = p.front.handed ++ [b])

theorem handed_of_backStep {s t : AsyncLogging} (h : AsyncLogging.BackStep s t)
    (hpc : ∀ i, s.pc ≠ .writing i) : t.handed = s.handed := by
  cases h with
  | write hwriting _ => exact absurd hwriting (hpc _)
  | _ => rfl

/-- A statement other than the constructor and the `append`s leaves the files alone. -/
theorem writeOutput_quiet {results : Nat → FwriteResult} {fuel : Nat} {output : Option LogFile}
    (h : p.writeOutput env results fuel = .ok output) (hentry : p.front.pc ≠ .entry)
    (hwriting : ∀ i, p.front.pc ≠ .writing i) : output = p.output := by
  have hflush : (do
      let output ← deref p.output
      let output ← output.flush
      return some output) = Except.ok output → output = p.output := by
    intro h
    obtain ⟨s, hs, hrest⟩ := bind_eq_ok h
    obtain ⟨t, ht, hend⟩ := bind_eq_ok hrest
    cases hend
    rw [LogFile.flush_eq ht, AsyncLogging.deref_eq_ok hs]
  rw [writeOutput] at h
  cases hpc : p.front.pc with
  | entry => exact absurd hpc hentry
  | writing i => exact absurd hpc (hwriting i)
  | clearing | leaving =>
    rw [hpc] at h
    exact hflush h
  | notStarted | whileTest | locking | waiting | trimming | refilling1 | refilling2 | finished =>
    rw [hpc] at h
    cases h
    rfl

/-- A step of the thread. -/
theorem fileStep_of_backend {front : AsyncLogging} {output : Option LogFile}
    (hfront : p.front.threadFunc = .ok front)
    (hout : p.writeOutput env l.results l.fuel = .ok output) :
    FileStep env p { p with front := front, output := output } := by
  cases hpc : p.front.pc with
  | entry =>
    rw [writeOutput, hpc] at hout
    rw [AsyncLogging.threadFunc, hpc] at hfront
    cases hout
    cases hfront
    exact .made hpc rfl rfl
  | writing i =>
    rw [writeOutput, hpc] at hout
    rw [AsyncLogging.threadFunc, hpc] at hfront
    cases hq : p.front.buffersToWrite[i]? with
    | none =>
      simp only [hq] at hout hfront
      cases hout
      cases hfront
      exact .none (by rw [hpc]; exact BackPc.noConfusion) rfl rfl
    | some q =>
      simp only [hq] at hout hfront
      obtain ⟨b, hb, hrest⟩ := bind_eq_ok hout
      obtain ⟨s, hs, hrest⟩ := bind_eq_ok hrest
      obtain ⟨t, ht, hend⟩ := bind_eq_ok hrest
      obtain ⟨c, hc, hend'⟩ := bind_eq_ok hfront
      cases hend
      cases hend'
      cases hb.symm.trans hc
      obtain ⟨⟨fs, f, g, hfiles, hholds, hrolls⟩, hopen⟩ := LogFile.append_files ht
      refine .wrote ?_ hholds hrolls ⟨t, hopen.choose, rfl, hopen.choose_spec⟩ rfl
      rw [files, AsyncLogging.deref_eq_ok hs]
      exact hfiles
  | _ =>
    have hwriting : ∀ i, p.front.pc ≠ .writing i := by
      intro i
      rw [hpc]
      exact BackPc.noConfusion
    have hentry : p.front.pc ≠ .entry := by
      rw [hpc]
      exact BackPc.noConfusion
    exact .none hentry (writeOutput_quiet hout hentry hwriting)
      (handed_of_backStep (AsyncLogging.backStep_of_threadFunc hfront) hwriting)

/-- What a step does to the front end, and to the files. -/
theorem perform_cases (h : p.perform env l = .ok q) :
    p.front.perform l.step = .ok q.front ∧ q.basename = p.basename ∧ q.rollSize = p.rollSize ∧
      (l.step = .backend ∧ FileStep env p q ∨ l.step ≠ .backend ∧ q.output = p.output) := by
  obtain ⟨front, hfront, hrest⟩ := bind_eq_ok h
  cases hl : l.step with
  | backend =>
    rw [hl] at hfront
    rw [hl] at hrest
    obtain ⟨output, hout, hend⟩ := bind_eq_ok hrest
    cases hend
    exact ⟨hfront, rfl, rfl, Or.inl ⟨rfl, fileStep_of_backend hfront hout⟩⟩
  | _ =>
    rw [hl] at hfront
    rw [hl] at hrest
    cases hrest
    exact ⟨hfront, rfl, rfl, Or.inr ⟨AsyncStep.noConfusion, rfl⟩⟩

-- ════════════════════════════════════════════════════════════════════════
-- The journal of the messages
-- ════════════════════════════════════════════════════════════════════════

/-- The contents of a file are whole buffers, and each begins with its messages. -/
def Image (contents : List Byte) (messages : List (List Byte)) : Prop :=
  ∃ blocks : List (List Byte × List (List Byte)), contents = blocks.flatMap Prod.fst ∧
    messages = blocks.flatMap Prod.snd ∧
    ∀ b ∈ blocks, b.1.length = largeBufferSize ∧ b.2.flatten <+: b.1

theorem Image.nil : Image [] [] := ⟨[], rfl, rfl, fun _ hb => absurd hb List.not_mem_nil⟩

theorem Image.append {contents : List Byte} {messages : List (List Byte)}
    (h : Image contents messages) (b : LogBuffer) :
    Image (contents ++ b.slice) (messages ++ b.records) := by
  obtain ⟨blocks, rfl, rfl, hblocks⟩ := h
  have hlen : b.slice.length = largeBufferSize := by
    rw [FixedBuffer.slice, List.length_take, b.length_data]
    exact Nat.min_self _
  have hrecords : b.records.flatten <+: b.slice := by
    rw [← b.contents]
    exact List.take_prefix_take_left b.cur_le
  refine ⟨blocks ++ [(b.slice, b.records)], ?_, ?_, ?_⟩
  · rw [List.flatMap_append, List.flatMap_singleton]
  · rw [List.flatMap_append, List.flatMap_singleton]
  · intro c hc
    rcases List.mem_append.mp hc with hc | hc
    · exact hblocks c hc
    · rw [List.mem_singleton.mp hc]
      exact ⟨hlen, hrecords⟩

/-- The message that the step logs. -/
def message (l : PipelineStep) : Option (List Byte) := l.step.message

/-- What holds of the files while the thread has not made `output`. -/
structure Inv (p : LogPipeline) : Prop where
  front : p.front.Inv
  fresh : p.front.pc = .notStarted ∨ p.front.pc = .entry → p.output = none ∧ p.front.handed = []

/-- The journal of a state. -/
structure Represents (p : LogPipeline) (j : Journal (List Byte)) : Prop extends Inv p where
  logged : j.logged = p.front.appended
  volumes : List.Forall₂ Image (p.files.map FileUtil.contents) j.volumes
  stored : j.volumes.flatten = p.front.handed.flatMap FixedBuffer.records

variable {j : Journal (List Byte)}

theorem append_handed {s t : AsyncLogging} {logline : List Byte} {fresh : LogBuffer}
    (h : s.append logline fresh = .ok t) : t.handed = s.handed := by
  obtain ⟨current, _, hrest⟩ := bind_eq_ok h
  split at hrest
  · cases hrest
    rfl
  · obtain ⟨next, _, hend⟩ := bind_eq_ok hrest
    cases hend
    rfl

theorem pc_of_other {s t : AsyncLogging} {l : AsyncStep} (h : s.perform l = .ok t)
    (hother : l ≠ .backend) : t.pc = s.pc ∨ t.pc = .entry := by
  cases l with
  | backend => exact absurd rfl hother
  | append logline memory hmem => exact Or.inl (AsyncLogging.append_frame h).1
  | start =>
    cases h
    exact Or.inr rfl
  | _ =>
    cases h
    exact Or.inl rfl

/-- Nobody but `start()` leads to the head of `thread_func`. -/
theorem threadFunc_pc {s t : AsyncLogging} (h : s.threadFunc = .ok t) (hpc : s.pc ≠ .notStarted) :
    t.pc ≠ .notStarted ∧ t.pc ≠ .entry := by
  cases AsyncLogging.backStep_of_threadFunc h with
  | rest hrest =>
    have hfinished : s.pc = .finished := hrest.resolve_left hpc
    rw [hfinished]
    exact ⟨BackPc.noConfusion, BackPc.noConfusion⟩
  | test _ => cases s.running <;> exact ⟨BackPc.noConfusion, BackPc.noConfusion⟩
  | _ => exact ⟨BackPc.noConfusion, BackPc.noConfusion⟩

/-- Where a file is opened a volume is begun. -/
theorem volumes_of_rolls {fs gs : List FileUtil} (hrolls : LogFile.Rolls fs gs)
    (h : List.Forall₂ Image (fs.map FileUtil.contents) j.volumes) :
    ∃ tr j', (Journal.system _).Run j tr j' ∧ tr.filterMap Journal.Event.entry = [] ∧
      j'.logged = j.logged ∧ List.Forall₂ Image (gs.map FileUtil.contents) j'.volumes ∧
      j'.volumes.flatten = j.volumes.flatten := by
  rcases hrolls with rfl | ⟨name, rfl⟩
  · exact ⟨[], j, .nil, rfl, rfl, h, rfl⟩
  · refine ⟨[.begin], _, .single (.begin j), rfl, rfl, ?_, ?_⟩
    · rw [List.map_append]
      exact List.rel_append h (.cons .nil .nil)
    · show (j.volumes ++ [[]]).flatten = j.volumes.flatten
      rw [List.flatten_append, List.flatten_singleton, List.append_nil]

/-- The thread goes on: what it stores was logged before. -/
theorem Represents.backend (h : Represents p j)
    (hl : p.front.Enabled .backend) (hfront : p.front.threadFunc = .ok q.front)
    (hfiles : FileStep env p q) (hinv : q.front.Inv) :
    ∃ tr j', (Journal.system _).Run j tr j' ∧ tr.filterMap Journal.Event.entry = [] ∧
      Represents q j' := by
  have hpc := threadFunc_pc hfront hl.1
  have happended := AsyncLogging.threadFunc_appended hfront
  have hfresh : q.front.pc = .notStarted ∨ q.front.pc = .entry →
      q.output = none ∧ q.front.handed = [] := fun hq => hq.elim (absurd · hpc.1) (absurd · hpc.2)
  cases hfiles with
  | none _ hout hhanded =>
    refine ⟨[], j, .nil, rfl, ⟨hinv, hfresh⟩, ?_, ?_, ?_⟩
    · rw [happended, h.logged]
    · rw [files, hout]
      exact h.volumes
    · rw [hhanded]
      exact h.stored
  | made hentry hout hhanded =>
    have hnone : p.output = none := (h.fresh (Or.inr hentry)).1
    have hempty : p.files = [] := by rw [files, hnone, Option.elim_none]
    have hvolumes := h.volumes
    rw [hempty] at hvolumes
    have hrolls : LogFile.Rolls [] q.files := by
      rw [files, hout]
      exact LogFile.rollFile_rolls env _
    obtain ⟨tr, j', hrun, hseen, hlogged, hvolumes', hstored⟩ := volumes_of_rolls hrolls hvolumes
    refine ⟨tr, j', hrun, hseen, ⟨hinv, hfresh⟩, ?_, hvolumes', ?_⟩
    · rw [hlogged, happended, h.logged]
    · rw [hstored, hhanded, h.stored]
  | @wrote b fs f g hfiles hholds hrolls _ hhanded =>
    have hvolumes := h.volumes
    rw [hfiles, List.map_append, List.map_singleton] at hvolumes
    obtain ⟨vs, v, hlast, hvs, hv⟩ := Journal.forall₂_of_concat hvolumes
    have hstored : vs.flatten ++ v ++ b.records = q.front.handed.flatMap FixedBuffer.records := by
      rw [hhanded, List.flatMap_append, List.flatMap_singleton, ← h.stored, hlast,
        List.flatten_append, List.flatten_singleton]
    have hlogged : vs.flatten ++ v ++ b.records <+: j.logged := by
      rw [hstored, h.logged, ← happended, ← hinv.order, AsyncLogging.taken, List.append_assoc,
        List.append_assoc]
      exact List.prefix_append _ _
    -- the buffer is stored in the last volume, and then another one may be begun
    have hstep := Journal.Step.store hlast hlogged
    have hgrown : List.Forall₂ Image ((fs ++ [g]).map FileUtil.contents) (vs ++ [v ++ b.records]) := by
      rw [List.map_append, List.map_singleton, hholds.contents]
      exact List.rel_append hvs (.cons (hv.append b) .nil)
    obtain ⟨tr, j', hrun, hseen, hlogged', hvolumes', hsame⟩ :=
      volumes_of_rolls (j := { j with volumes := vs ++ [v ++ b.records] }) hrolls hgrown
    refine ⟨_, j', (Transition.System.Run.single hstep).append hrun, ?_,
      ⟨hinv, hfresh⟩, ?_, hvolumes', ?_⟩
    · rw [List.filterMap_append, hseen]
      rfl
    · rw [hlogged', happended, ← h.logged]
    · rw [hsame, ← hstored, List.flatten_append, List.flatten_singleton, List.append_assoc]

/-- A step of a producer or of the owner. -/
theorem Represents.others (h : Represents p j) (hl : p.front.Enabled l.step)
    (hother : l.step ≠ .backend) (hfront : p.front.perform l.step = .ok q.front)
    (hout : q.output = p.output) (hinv : q.front.Inv) :
    ∃ tr j', (Journal.system _).Run j tr j' ∧
      tr.filterMap Journal.Event.entry = (message l).toList ∧ Represents q j' := by
  have hfiles : q.files = p.files := by rw [files, files, hout]
  -- all but `append` and `start` leave the log and the thread where they are
  have hquiet : q.front.handed = p.front.handed → q.front.appended = p.front.appended →
      (q.front.pc = .notStarted ∨ q.front.pc = .entry → p.output = none ∧ p.front.handed = []) →
      message l = none → ∃ tr j', (Journal.system _).Run j tr j' ∧
        tr.filterMap Journal.Event.entry = (message l).toList ∧ Represents q j' := by
    intro hhanded happended hfresh hseen
    refine ⟨[], j, .nil, by rw [hseen]; rfl, ⟨hinv, ?_⟩, ?_, ?_, ?_⟩
    · rw [hout, hhanded]
      exact hfresh
    · rw [happended, h.logged]
    · rw [hfiles]
      exact h.volumes
    · rw [hhanded, h.stored]
  cases hstep : l.step with
  | backend => exact absurd hstep hother
  | append logline memory hmem =>
    rw [hstep] at hfront
    have hhanded := append_handed hfront
    obtain ⟨hpc, _, _, _, _, happended⟩ := AsyncLogging.append_frame hfront
    have hfresh : q.front.pc = .notStarted ∨ q.front.pc = .entry →
        p.output = none ∧ p.front.handed = [] := by
      rw [hpc]
      exact h.fresh
    by_cases hfit : logline.length < largeBufferSize
    · have hseen : message l = some logline := by simp only [message, AsyncStep.message, hstep, if_pos hfit]
      refine ⟨[.log logline], _, .single (.log j logline), by rw [hseen]; rfl, ⟨hinv, ?_⟩, ?_, ?_, ?_⟩
      · rw [hout, hhanded]
        exact hfresh
      · show j.logged ++ [logline] = q.front.appended
        rw [happended, AsyncLogging.note, if_pos hfit, h.logged]
      · rw [hfiles]
        exact h.volumes
      · rw [hhanded]
        exact h.stored
    · refine hquiet hhanded ?_ hfresh (by simp only [message, AsyncStep.message, hstep, if_neg hfit])
      rw [happended, AsyncLogging.note, if_neg hfit]
  | start =>
    rw [hstep] at hfront hl
    have hq := Except.ok.inj hfront
    have hfresh := h.fresh (Or.inl (h.front.owner hl))
    exact hquiet (by rw [← hq]) (by rw [← hq]) (fun _ => hfresh) (by simp only [message, AsyncStep.message, hstep])
  | _ =>
    rw [hstep] at hfront
    have hq := Except.ok.inj hfront
    exact hquiet (by rw [← hq]) (by rw [← hq]) (by rw [← hq]; exact h.fresh) (by simp only [message, AsyncStep.message, hstep])

/-- Behind its constructor, `output` has a file. -/
structure Ready (p : LogPipeline) : Prop extends Inv p where
  opened : p.front.pc ≠ .notStarted → p.front.pc ≠ .entry →
    ∃ s f, p.output = some s ∧ s.file = some f

/-- The clock shows a time after 1970: the constructor opens a file. -/
theorem new_file (hpos : 0 < env.time 1) (basename : List Byte) (rollSize flushInterval checkEveryN : Int) :
    ∃ f, (LogFile.new env basename rollSize flushInterval checkEveryN).file = some f := by
  rw [LogFile.new, LogFile.rollFile]
  split
  · exact ⟨_, rfl⟩
  · next hnow => exact absurd hpos hnow

theorem Ready.step (hpos : 0 < env.time 1) (h : Ready p) (hl : p.front.Enabled l.step)
    (hperf : p.perform env l = .ok q) (hinv : Inv q) : Ready q := by
  refine ⟨hinv, fun hstarted hentry => ?_⟩
  obtain ⟨hfront, _, _, hfiles⟩ := perform_cases hperf
  rcases hfiles with ⟨hback, hfiles⟩ | ⟨hother, hout⟩
  · rw [hback] at hl hfront
    cases hfiles with
    | none hpc hout _ =>
      rw [hout]
      exact h.opened hl.1 hpc
    | made _ hout _ =>
      obtain ⟨f, hf⟩ := new_file hpos p.basename p.rollSize 0 1024
      exact ⟨_, f, hout, hf⟩
    | wrote _ _ _ hopen _ => exact hopen
  · rw [hout]
    have hpc : q.front.pc = p.front.pc := (pc_of_other hfront hother).resolve_right hentry
    rw [hpc] at hstarted hentry
    exact h.opened hstarted hentry

/-- The thread is in front of a buffer that it is to write. -/
def Writes (p : LogPipeline) : AsyncStep → Prop
  | .backend => ∃ i, p.front.pc = .writing i ∧ i < p.front.buffersToWrite.length
  | .append _ _ _ | .start | .callStop | .storeRunning | .notify | .join => False

theorem perform_eq {front : AsyncLogging} (hfront : p.front.perform l.step = .ok front)
    (hother : l.step ≠ .backend) : p.perform env l = .ok { p with front := front } := by
  rw [perform, hfront]
  cases hl : l.step with
  | backend => exact absurd hl hother
  | _ => rfl

theorem run_of_after {env : LogEnv} {basename : List Byte} {rollSize : Int} {tr : List PipelineStep}
    (h : p.after env tr = some q) : (system env basename rollSize).Run p tr q := by
  refine .of_follow ?_ h
  intro p l q hl hperf
  exact ⟨hl, eq_ok_of_toOption hperf⟩

/-- What a step leaves of the files. -/
structure Grows (fs gs : List FileUtil) : Prop where
  contents : Journal.Extends (fs.map FileUtil.contents) (gs.map FileUtil.contents)
  names : fs.map FileUtil.name <+: gs.map FileUtil.name

theorem Grows.refl (fs : List FileUtil) : Grows fs fs := ⟨.refl _, List.prefix_refl _⟩

theorem Grows.trans {fs gs hs : List FileUtil} (h : Grows fs gs) (h' : Grows gs hs) : Grows fs hs :=
  ⟨h.contents.trans h'.contents, h.names.trans h'.names⟩

theorem Grows.rolls {fs gs : List FileUtil} (h : LogFile.Rolls fs gs) : Grows fs gs := by
  rcases h with rfl | ⟨name, rfl⟩
  · exact .refl _
  · refine ⟨?_, ?_⟩
    · rw [List.map_append]
      exact .append _ _
    · rw [List.map_append]
      exact List.prefix_append _ _

theorem Grows.write {fs : List FileUtil} {f g : FileUtil} {data : List Byte}
    (h : FileUtil.Holds f g data data.length) : Grows (fs ++ [f]) (fs ++ [g]) where
  contents := by
    rw [List.map_append, List.map_append, List.map_singleton, List.map_singleton, h.contents]
    exact .last _ _ _
  names := by
    rw [List.map_append, List.map_append, List.map_singleton, List.map_singleton, h.name]

theorem Inv.grows (h : Inv p) (hperf : p.perform env l = .ok q) : Grows p.files q.files := by
  obtain ⟨_, _, _, hfiles⟩ := perform_cases hperf
  rcases hfiles with ⟨_, hfiles⟩ | ⟨_, hout⟩
  · cases hfiles with
    | none _ hout _ =>
      rw [files, files, hout]
      exact .refl _
    | made hentry hout _ =>
      have hempty : p.files = [] := by rw [files, (h.fresh (Or.inr hentry)).1, Option.elim_none]
      rw [hempty, files, hout]
      exact .rolls (LogFile.rollFile_rolls env _)
    | wrote hfiles hholds hrolls _ _ =>
      rw [hfiles]
      exact (Grows.write hholds).trans (.rolls hrolls)
  · rw [files, files, hout]
    exact .refl _

end LogPipeline

end DamnWebServer
