import DamnWebServer.Log.LogFile

/-!
# What rolling keeps

The files hold the records in order, none of them split, their seconds increase, and
the period is the day of the last roll. A file that has grown too large in the second
it was opened in stays open, and every later append tries again.
-/

namespace DamnWebServer

/-- The calls on a `Log_File`. -/
inductive LogOp where
  | append (data : List Byte)
  | flush
  | rollFile

namespace LogOp

/-- The records among some calls. -/
def records : List LogOp → List (List Byte)
  | [] => []
  | .append data :: ops => data :: records ops
  | .flush :: ops | .rollFile :: ops => records ops

end LogOp

/-- Every call of `fwrite_unlocked` takes all it is given. -/
def takesAll (data : List Byte) : Nat → FwriteResult := fun _ => ⟨data.length, none⟩

namespace LogFile

/-- A call; an append writes its bytes in full. -/
def apply (env : LogEnv) (s : LogFile) : LogOp → Except Fault LogFile
  | .append data => s.append env (takesAll data) 2 data
  | .flush => s.flush
  | .rollFile => .ok (s.rollFile env).2

/-- Some calls, one after the other. -/
def run (env : LogEnv) (s : LogFile) (ops : List LogOp) : Except Fault LogFile :=
  ops.foldlM (apply env) s

variable {env : LogEnv} {s t u : LogFile} {f g : FileUtil} {data : List Byte}
  {rs : List (List Byte)}

theorem apply_append (env : LogEnv) (h : s.file = some f) (data : List Byte) :
    ∃ g, FileUtil.Holds f g data data.length ∧
      s.apply env (.append data) = .ok (s.afterWrite env g) := by
  have hreturns : ∃ n, n < 2 ∧ data.length ≤ written (takesAll data) n :=
    ⟨1, by decide, by simp [written, takesAll]⟩
  obtain ⟨t, ht⟩ := (append_returns_iff env h).mpr hreturns
  obtain ⟨g, hg, rfl⟩ := append_ok h ht
  exact ⟨g, hg, ht⟩

-- ════════════════════════════════════════════════════════════════════════
-- The invariant
-- ════════════════════════════════════════════════════════════════════════

/-- The records `rs` stand in the files of `s`. -/
structure Inv (env : LogEnv) (rs : List (List Byte)) (s : LogFile) : Prop where
  /-- Each file holds a run of whole records, the current one the last. -/
  contents : ∃ (f : FileUtil) (groups : List (List (List Byte))) (last : List (List Byte)),
    s.file = some f ∧ s.closed.map FileUtil.contents = groups.map List.flatten ∧
      f.contents = last.flatten ∧ groups.flatten ++ last = rs
  names : s.files.map FileUtil.name = s.seconds.map (getLogFileName env s.basename)
  increasing : s.seconds.Pairwise (· < ·)
  last : s.seconds.getLast? = some s.lastRoll
  period : s.startOfPeriod = periodOf s.lastRoll
  positive : 0 < s.lastRoll
  /-- The clock has not been set back behind the last roll. -/
  clock : ∀ i, s.ticks ≤ i → s.lastRoll ≤ env.time i

theorem Inv.file (h : Inv env rs s) : ∃ f, s.file = some f := by
  obtain ⟨f, _, _, hf, _⟩ := h.contents
  exact ⟨f, hf⟩

/-- Readings, counts and flushes leave the files alone. -/
theorem Inv.frame (h : Inv env rs s) {count ticks : Nat} (hticks : s.ticks ≤ ticks)
    (lastFlush : Int) :
    Inv env rs { s with count := count, ticks := ticks, lastFlush := lastFlush } where
  contents := h.contents
  names := h.names
  increasing := h.increasing
  last := h.last
  period := h.period
  positive := h.positive
  clock i hi := h.clock i (Nat.le_trans hticks hi)

/-- A new file is opened. -/
theorem Inv.open (h : Inv env rs s) (hmono : Monotone env.time) (hnow : s.lastRoll < s.reading env) :
    Inv env rs (s.rollFile env).2 := by
  obtain ⟨f, groups, last, hf, hclosed, hlast, hall⟩ := h.contents
  rw [rollFile, if_pos hnow]
  refine ⟨⟨_, groups ++ [last], [], rfl, ?_, rfl, ?_⟩, ?_, ?_, ?_, rfl, ?_, ?_⟩
  · simp [files, hf, hclosed, hlast]
  · simp [hall]
  · have hnames := h.names
    simp only [files] at hnames ⊢
    simp only [List.map_append, hnames, Option.toList_some, List.map_cons, List.map_nil]
    rfl
  · -- the last of the seconds is `last_roll_`, and the others come before it
    refine List.pairwise_append.mpr ⟨h.increasing, List.pairwise_singleton _ _, ?_⟩
    intro a ha b hb
    rw [List.mem_singleton.mp hb]
    refine Int.lt_of_le_of_lt ?_ hnow
    obtain ⟨init, hinit⟩ := List.getLast?_eq_some_iff.mp h.last
    rw [hinit] at ha
    rcases List.mem_append.mp ha with ha | ha
    · have hpair := h.increasing
      rw [hinit] at hpair
      exact Int.le_of_lt ((List.pairwise_append.mp hpair).2.2 a ha _ (List.mem_singleton_self _))
    · exact Int.le_of_eq (List.mem_singleton.mp ha)
  · exact List.getLast?_concat
  · exact Int.lt_trans h.positive hnow
  · intro i hi
    exact hmono (Nat.le_trans (Nat.le_succ _) hi)

theorem Inv.rollFile (h : Inv env rs s) (hmono : Monotone env.time) :
    Inv env rs (s.rollFile env).2 := by
  by_cases hnow : s.lastRoll < s.reading env
  · exact h.open hmono hnow
  · rw [LogFile.rollFile, if_neg hnow]
    exact h.frame (Nat.le_add_right _ 2) s.lastFlush

theorem Inv.checkPeriod (h : Inv env rs s) (hmono : Monotone env.time) :
    Inv env rs (s.checkPeriod env) := by
  unfold LogFile.checkPeriod
  dsimp only
  split
  · exact (h.frame (Nat.le_succ _) s.lastFlush).rollFile hmono
  · split
    · exact h.frame (Nat.le_succ _) _
    · exact h.frame (Nat.le_succ _) s.lastFlush

/-- A record goes to the end of the current file. -/
theorem Inv.write (h : Inv env rs s) (hf : s.file = some f)
    (hg : FileUtil.Holds f g data data.length) :
    Inv env (rs ++ [data]) { s with file := some g } := by
  obtain ⟨f', groups, last, hf', hclosed, hlast, hall⟩ := h.contents
  cases hf.symm.trans hf'
  refine { h with contents := ⟨g, groups, last ++ [data], rfl, hclosed, ?_, ?_⟩, names := ?_ }
  · rw [hg.contents, hlast, List.flatten_append, List.flatten_singleton]
  · rw [← List.append_assoc, hall]
  · have hnames := h.names
    simpa [files, hf, hg.name] using hnames

theorem Inv.afterWrite (h : Inv env rs s) (hmono : Monotone env.time) (hf : s.file = some f)
    (hg : FileUtil.Holds f g data data.length) : Inv env (rs ++ [data]) (s.afterWrite env g) := by
  have hwritten := h.write hf hg
  unfold LogFile.afterWrite
  dsimp only
  split
  · exact hwritten.rollFile hmono
  · have hcounted : Inv env (rs ++ [data]) { s with file := some g, count := s.count + 1 } :=
      hwritten.frame (Nat.le_refl _) s.lastFlush
    split
    · exact hcounted.checkPeriod hmono
    · exact hcounted

/-- A call keeps the invariant and does not fail. -/
theorem Inv.apply (h : Inv env rs s) (hmono : Monotone env.time) (op : LogOp) :
    ∃ t, s.apply env op = .ok t ∧ Inv env (rs ++ LogOp.records [op]) t := by
  obtain ⟨f, hf⟩ := h.file
  cases op with
  | append data =>
    obtain ⟨g, hg, ht⟩ := apply_append env hf data
    exact ⟨_, ht, h.afterWrite hmono hf hg⟩
  | flush =>
    refine ⟨s, ?_, ?_⟩
    · simp only [LogFile.apply, LogFile.flush, hf, deref, bind, Except.bind, pure, Except.pure]
    · rwa [LogOp.records, LogOp.records, List.append_nil]
  | rollFile =>
    refine ⟨_, rfl, ?_⟩
    rw [LogOp.records, LogOp.records, List.append_nil]
    exact h.rollFile hmono

theorem records_cons (op : LogOp) (ops : List LogOp) :
    LogOp.records (op :: ops) = LogOp.records [op] ++ LogOp.records ops := by
  cases op <;> rfl

theorem Inv.run (h : Inv env rs s) (hmono : Monotone env.time) (ops : List LogOp) :
    ∃ t, s.run env ops = .ok t ∧ Inv env (rs ++ LogOp.records ops) t := by
  induction ops generalizing s rs with
  | nil =>
    refine ⟨s, rfl, ?_⟩
    rwa [LogOp.records, List.append_nil]
  | cons op ops ih =>
    obtain ⟨t, ht, hinv⟩ := h.apply hmono op
    obtain ⟨u, hu, hrest⟩ := ih hinv
    refine ⟨u, ?_, ?_⟩
    · rw [LogFile.run, List.foldlM_cons, ht]
      exact hu
    · rwa [records_cons, ← List.append_assoc]

/-- The constructor opens the first file. -/
theorem new_inv (hpos : ∀ i, 0 < env.time i) (hmono : Monotone env.time) (basename : List Byte)
    (rollSize flushInterval checkEveryN : Int) :
    Inv env [] (new env basename rollSize flushInterval checkEveryN) := by
  unfold new rollFile
  split
  · exact ⟨⟨_, [], [], rfl, rfl, rfl, rfl⟩, rfl, List.pairwise_singleton _ _, rfl, rfl, hpos 1,
      fun i hi => hmono (Nat.le_trans (Nat.le_succ _) hi)⟩
  · next hnow => exact absurd (hpos 1) hnow

-- ════════════════════════════════════════════════════════════════════════
-- Files that have grown too large
-- ════════════════════════════════════════════════════════════════════════

/-- Calls among which no append is made after the clock has passed the last roll, and no
    `roll_file` opens a file. -/
def Waits (env : LogEnv) : LogFile → List LogOp → Prop
  | _, [] => True
  | s, op :: ops =>
    (match op with
      | .append _ => ¬s.lastRoll < s.reading env
      | .rollFile => (s.rollFile env).1 = false
      | .flush => True) ∧
    ∀ t, s.apply env op = .ok t → Waits env t ops

end LogFile

end DamnWebServer
