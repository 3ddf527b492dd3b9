import DamnWebServer.Log.AsyncLogging
import DamnWebServer.Log.FileUtil
import DamnWebServer.Log.Logger

/-!
# Rolling log files

`Log_File` (`base/log/log_file.h`, `base/log/log_file.cpp`): appends to a `File_Util`
and opens another one when the file has grown past `roll_size_`, or at the first check
on another day. `roll_file` reads the clock, and `get_log_file_name` reads it once
more into the same variable, so that the second reading counts. `time(nullptr)` is a
sequence, read on in the order of the calls.
-/

namespace DamnWebServer

/-- The clock and the time zone. -/
structure LogEnv where
  /-- What the calls of `time(nullptr)` return, one after the other. -/
  time : Nat → Int
  localtime : Int → Tm

/-- `ROLL_INTERVAL`. -/
def rollInterval : Int := 60 * 60 * 24

/-- `now / ROLL_INTERVAL * ROLL_INTERVAL`. -/
def periodOf (now : Int) : Int := now.tdiv rollInterval * rollInterval

/-- `strftime` with `.%Y%m%d-%H%M%S`, which fits `timebuf`. -/
def Tm.stamp (tm : Tm) : List Byte :=
  ascii "." ++ ascii (toString (tm.year + 1900)) ++ paddedDecimal 48 2 (tm.mon + 1) ++
    paddedDecimal 48 2 tm.mday ++ ascii "-" ++ paddedDecimal 48 2 tm.hour ++
    paddedDecimal 48 2 tm.min ++ paddedDecimal 48 2 tm.sec

/-- `get_log_file_name`, with the time it has read. -/
def getLogFileName (env : LogEnv) (basename : List Byte) (now : Int) : List Byte :=
  basename ++ (env.localtime now).stamp ++ ascii ".log"

structure LogFile where
  basename : List Byte
  rollSize : Int
  flushInterval : Int
  checkEveryN : Int
  count : Nat
  startOfPeriod : Int
  lastRoll : Int
  lastFlush : Int
  file : Option FileUtil
  /-- The files that `file_.reset` has closed, in the order they were opened. -/
  closed : List FileUtil
  /-- The seconds in the names of the files opened so far. -/
  seconds : List Int
  /-- So many times the clock has been read. -/
  ticks : Nat

namespace LogFile

/-- All files, in the order they were opened. -/
def files (s : LogFile) : List FileUtil := s.closed ++ s.file.toList

/-- The reading that `roll_file` uses if it is the next to read the clock: the second,
    which `get_log_file_name` makes. -/
def reading (env : LogEnv) (s : LogFile) : Int := env.time (s.ticks + 1)

/-- `roll_file`, and whether it opened a file. -/
def rollFile (env : LogEnv) (s : LogFile) : Bool × LogFile :=
  if s.lastRoll < s.reading env then
    (true,
      { s with
        ticks := s.ticks + 2
        lastRoll := s.reading env
        lastFlush := s.reading env
        startOfPeriod := periodOf (s.reading env)
        closed := s.files
        file := some (.new (getLogFileName env s.basename (s.reading env)))
        seconds := s.seconds ++ [s.reading env] })
  else (false, { s with ticks := s.ticks + 2 })

/-- `Log_File(basename, roll_size, flush_interval, check_every_n)`. -/
def new (env : LogEnv) (basename : List Byte) (rollSize flushInterval checkEveryN : Int) : LogFile :=
  (rollFile env
    { basename := basename
      rollSize := rollSize
      flushInterval := flushInterval
      checkEveryN := checkEveryN
      count := 0
      startOfPeriod := 0
      lastRoll := 0
      lastFlush := 0
      file := none
      closed := []
      seconds := []
      ticks := 0 }).2

/-- The check of the day, every `check_every_n_` records. -/
def checkPeriod (env : LogEnv) (s : LogFile) : LogFile :=
  let now := env.time s.ticks
  let s := { s with count := 0, ticks := s.ticks + 1 }
  if periodOf now ≠ s.startOfPeriod then (s.rollFile env).2
  else if s.flushInterval < now - s.lastFlush then { s with lastFlush := now }
  else s

/-- `append_in_lock` behind `file_->append(data, len)`. -/
def afterWrite (env : LogEnv) (s : LogFile) (file : FileUtil) : LogFile :=
  let s := { s with file := some file }
  if s.rollSize < (file.writtenBytes : Int) then (s.rollFile env).2
  else
    let s := { s with count := s.count + 1 }
    if s.checkEveryN ≤ (s.count : Int) then s.checkPeriod env else s

/-- `append(data, len)`; `results` is what the calls of `fwrite_unlocked` do. -/
def append (env : LogEnv) (results : Nat → FwriteResult) (fuel : Nat) (s : LogFile)
    (data : List Byte) : Except Fault LogFile := do
  let file ← deref s.file
  let file ← file.append results fuel data
  return s.afterWrite env file

/-- `flush()`: `fflush` does not change what was written. -/
def flush (s : LogFile) : Except Fault LogFile := do
  let _ ← deref s.file
  return s

/-- An iteration of `thread_func` behind the swap: every buffer is appended, `length()`
    bytes of it, each with the results of its own calls of `fwrite_unlocked`, and then
    `output` is flushed. -/
def writeBuffers (env : LogEnv) (fuel : Nat) (output : LogFile)
    (buffersToWrite : List (LogBuffer × (Nat → FwriteResult))) : Except Fault LogFile := do
  let output ← buffersToWrite.foldlM (fun o b => o.append env b.2 fuel b.1.slice) output
  output.flush

variable {env : LogEnv} {s t : LogFile} {f : FileUtil} {results : Nat → FwriteResult} {fuel : Nat}
  {data : List Byte}

/-- There is always a file, once there is one. -/
theorem rollFile_file (h : s.file = some f) : ∃ g, (s.rollFile env).2.file = some g := by
  unfold rollFile
  split
  · exact ⟨_, rfl⟩
  · exact ⟨f, h⟩

theorem checkPeriod_file (h : s.file = some f) : ∃ g, (s.checkPeriod env).file = some g := by
  unfold checkPeriod
  dsimp only
  split
  · exact rollFile_file h
  · split
    · exact ⟨f, h⟩
    · exact ⟨f, h⟩

theorem afterWrite_file (f : FileUtil) : ∃ g, (s.afterWrite env f).file = some g := by
  unfold afterWrite
  dsimp only
  split
  · exact rollFile_file rfl
  · split
    · exact checkPeriod_file rfl
    · exact ⟨f, rfl⟩

theorem append_eq (h : s.file = some f) :
    s.append env results fuel data =
      (f.append results fuel data).map (s.afterWrite env) := by
  rw [append, h]
  cases hf : f.append results fuel data with
  | error e => simp only [deref, bind, Except.bind, hf, Except.map]
  | ok g => simp only [deref, bind, Except.bind, hf, Except.map, pure, Except.pure]

/-- A record that is appended stands in the file as a whole. -/
theorem append_ok (h : s.file = some f) (ht : s.append env results fuel data = .ok t) :
    ∃ g, FileUtil.Holds f g data data.length ∧ t = s.afterWrite env g := by
  rw [append_eq h] at ht
  cases hg : f.append results fuel data with
  | error e =>
    rw [hg] at ht
    cases ht
  | ok g =>
    rw [hg] at ht
    cases ht
    exact ⟨g, FileUtil.append_ok hg, rfl⟩

theorem append_returns_iff (env : LogEnv) (h : s.file = some f) :
    (∃ t, s.append env results fuel data = .ok t) ↔
      ∃ n, n < fuel ∧ data.length ≤ written results n := by
  rw [append_eq h, ← FileUtil.append_returns_iff (f := f)]
  cases f.append results fuel data with
  | error e =>
    constructor <;> rintro ⟨_, ht⟩ <;> cases ht
  | ok g => exact ⟨fun _ => ⟨g, rfl⟩, fun _ => ⟨_, rfl⟩⟩

/-- `Log_File::append` ends where the append to the file does. -/
theorem append_ends_iff (h : s.file = some f) :
    (∃ fuel t, s.append env results fuel data = .ok t) ↔ ¬Stuck results data.length := by
  simp only [append_returns_iff env h]
  exact enough_rounds_iff

/-- The buffers are written within some rounds each if every one is. -/
theorem writeBuffers_returns_iff {bufs : List (LogBuffer × (Nat → FwriteResult))}
    (h : s.file = some f) :
    (∃ t, s.writeBuffers env fuel bufs = .ok t) ↔
      ∀ b ∈ bufs, ∃ n, n < fuel ∧ largeBufferSize ≤ written b.2 n := by
  induction bufs generalizing s f with
  | nil =>
    refine ⟨fun _ b hb => absurd hb List.not_mem_nil, fun _ => ⟨s, ?_⟩⟩
    simp only [writeBuffers, List.foldlM_nil, flush, h, deref, bind, Except.bind, pure, Except.pure]
  | cons b bufs ih =>
    have hlen : b.1.slice.length = largeBufferSize := by
      rw [FixedBuffer.slice, List.length_take, b.1.length_data]
      exact Nat.min_self _
    have hhead : (∃ t, s.append env b.2 fuel b.1.slice = .ok t) ↔
        ∃ n, n < fuel ∧ b.1.slice.length ≤ written b.2 n := append_returns_iff env h
    rw [hlen] at hhead
    rw [List.forall_mem_cons, ← hhead]
    cases hb : s.append env b.2 fuel b.1.slice with
    | error e =>
      constructor
      · rintro ⟨t, ht⟩
        simp only [writeBuffers, List.foldlM_cons, hb, bind, Except.bind] at ht
        cases ht
      · rintro ⟨⟨t, ht⟩, _⟩
        cases ht
    | ok u =>
      obtain ⟨g, _, hu⟩ := append_ok h hb
      obtain ⟨g', hg'⟩ : ∃ g', (s.afterWrite env g).file = some g' := afterWrite_file g
      rw [← hu] at hg'
      rw [← ih hg']
      have hrest : s.writeBuffers env fuel (b :: bufs) = u.writeBuffers env fuel bufs := by
        simp only [writeBuffers, List.foldlM_cons, hb, bind, Except.bind]
      rw [hrest]
      exact ⟨fun ht => ⟨⟨u, rfl⟩, ht⟩, fun ht => ht.2⟩

theorem writeBuffers_ends_iff {bufs : List (LogBuffer × (Nat → FwriteResult))}
    (h : s.file = some f) :
    (∃ fuel t, s.writeBuffers env fuel bufs = .ok t) ↔
      ∀ b ∈ bufs, ¬Stuck b.2 largeBufferSize := by
  simp only [writeBuffers_returns_iff h, not_stuck_iff]
  constructor
  · rintro ⟨fuel, hall⟩ b hb
    obtain ⟨n, _, hn⟩ := hall b hb
    exact ⟨n, hn⟩
  · intro hall
    -- as many rounds as the slowest buffer takes
    induction bufs with
    | nil => exact ⟨0, fun b hb => absurd hb List.not_mem_nil⟩
    | cons b bufs ih =>
      obtain ⟨n, hn⟩ := hall b List.mem_cons_self
      obtain ⟨fuel, hfuel⟩ := ih fun c hc => hall c (List.mem_cons_of_mem b hc)
      refine ⟨n + 1 + fuel, List.forall_mem_cons.mpr ⟨⟨n, by omega, hn⟩, fun c hc => ?_⟩⟩
      obtain ⟨m, hm, hlen⟩ := hfuel c hc
      exact ⟨m, by omega, hlen⟩

end LogFile

/-- **Appending returns exactly where the calls of `fwrite_unlocked` do not come to take
    nothing while bytes are left.** It has then written every byte once, in order. So
    for `Log_File::append`, and for an iteration of `thread_func` with each of its
    buffers. -/
theorem append_returns_exactly (env : LogEnv) (results : Nat → FwriteResult) (data : List Byte)
    (f : FileUtil) (output : LogFile) (hopen : output.file = some f)
    (bufs : List (LogBuffer × (Nat → FwriteResult))) :
    ((∃ fuel g, f.append results fuel data = .ok g ∧ g.contents = f.contents ++ data ∧
        g.writtenBytes = f.writtenBytes + data.length) ↔ ¬Stuck results data.length) ∧
      ((∃ fuel t, output.append env results fuel data = .ok t) ↔ ¬Stuck results data.length) ∧
      ((∃ fuel t, output.writeBuffers env fuel bufs = .ok t) ↔
        ∀ b ∈ bufs, ¬Stuck b.2 largeBufferSize) := by
  refine ⟨?_, LogFile.append_ends_iff hopen, LogFile.writeBuffers_ends_iff hopen⟩
  rw [← FileUtil.append_ends_iff (f := f)]
  constructor
  · rintro ⟨fuel, g, hg, _⟩
    exact ⟨fuel, g, hg⟩
  · rintro ⟨fuel, g, hg⟩
    have hholds := FileUtil.append_ok hg
    exact ⟨fuel, g, hg, hholds.contents, hholds.writtenBytes⟩

/-- A day of October 2022, universal time, whose clock is read four times a second. -/
def sampleEnv : LogEnv where
  time i := 1666787459 + (i / 4 : Nat)
  localtime now :=
    ⟨122, 9, 26, (now % 86400 / 3600).toNat, (now % 3600 / 60).toNat, (now % 60).toNat⟩

/-- Three bytes, of which the second call takes the last. -/
theorem append_returns_exactly_sample :
    ∃ fuel g, (FileUtil.new (ascii "a.log")).append (fun _ => ⟨2, none⟩) fuel [65, 66, 67] = .ok g ∧
      g.contents = [65, 66, 67] ∧ g.writtenBytes = 3 := by
  have hstuck : ¬Stuck (fun _ => ⟨2, none⟩) [(65 : Byte), 66, 67].length :=
    not_stuck_iff.mpr ⟨2, by decide⟩
  have hopen : ({ LogFile.new sampleEnv (ascii "a") 100 3 1024 with
      file := some (.new (ascii "a.log")) } : LogFile).file = some (.new (ascii "a.log")) := rfl
  obtain ⟨fuel, g, hg, hcontents, hwritten⟩ :=
    (append_returns_exactly sampleEnv (fun _ => ⟨2, none⟩) [65, 66, 67] (.new (ascii "a.log")) _
      hopen []).1.mpr hstuck
  exact ⟨fuel, g, hg, hcontents, hwritten⟩

/-- A byte for a full disk. -/
theorem append_never_returns :
    ¬∀ (results : Nat → FwriteResult) (f : FileUtil) (data : List Byte),
      ∃ fuel g, f.append results fuel data = .ok g := by
  intro hall
  have hends := hall (fun _ => ⟨0, some (ascii "Operation not permitted")⟩) (.new (ascii "a.log")) [65]
  exact FileUtil.append_ends_iff.mp hends ⟨0, by decide, fun _ _ => rfl⟩

end DamnWebServer
