import DamnWebServer.Log.TimeText

/-!
# Reading a log record back

`~Logger` hands the whole array of its stream to `g_output`, 4000 bytes, of which the record
is only the first part; behind it stands what was in the memory before. A record is a head
of fixed width, the message, and a tail that ends with the line. So it can be read back from
the array, whatever stands behind it: the head from the front, the tail from its newline
backwards.
-/

namespace DamnWebServer

/-- What a record tells. -/
structure LogRecord where
  /-- The seventeen bytes of `t_time`. -/
  minute : List Byte
  microseconds : Nat
  level : LogLevel
  /-- The error, the function and the streamed arguments. -/
  message : List Byte
  file : List Byte
  line : Int
  deriving DecidableEq, Repr

/-- What stands before and after the last of a byte. -/
def findLast (c : Byte) (bs : List Byte) : Option (List Byte × List Byte) :=
  (findByte c bs.reverse).map fun r => (r.2.reverse, r.1.reverse)

theorem findLast_append {c : Byte} {after : List Byte} (h : c ∉ after) (before : List Byte) :
    findLast c (before ++ c :: after) = some (before, after) := by
  have hfind : findByte c (before ++ c :: after).reverse = some (after.reverse, before.reverse) := by
    refine findByte_eq_some.mpr ⟨?_, fun hmem => h (List.mem_reverse.mp hmem)⟩
    rw [List.reverse_append, List.reverse_cons, List.append_assoc]
    rfl
  rw [findLast, hfind, Option.map_some, List.reverse_reverse, List.reverse_reverse]

/-- The level whose name was streamed. -/
def readLevel (name : List Byte) : Option LogLevel :=
  [LogLevel.trace, .debug, .info, .warn, .error, .fatal].find? fun level => level.name = name

theorem readLevel_name (level : LogLevel) : readLevel level.name = some level := by
  cases level <;> decide

/-- The record at the front of an array. -/
def readRecord (bs : List Byte) : Option LogRecord := do
  let microseconds ← readDecimal ((bs.drop 17).take 6)
  let level ← readLevel ((bs.drop 24).take 6)
  let (text, _) ← findByte 10 (bs.drop 30)
  let (text, line) ← findLast 58 text
  let (text, file) ← findLast 32 text
  let line ← readInteger line
  if text.drop (text.length - 2) = ascii " -" then
    some { minute := bs.take 17, microseconds, level, message := text.take (text.length - 2), file, line }
  else none

namespace LogStatement

variable {st : LogStatement}

/-- The text between the head and the tail. -/
def message (st : LogStatement) : List Byte :=
  ((st.head.drop 3 ++ st.function ++ st.args).map LogArg.text).flatten

def record (st : LogStatement) : LogRecord where
  minute := st.tm.text.take 17
  microseconds := st.microseconds
  level := st.level
  message := st.message
  file := sourceFile st.file
  line := st.line

/-- A statement whose record is complete, and whose message and file name keep to one line. -/
structure Legible (st : LogStatement) : Prop where
  tm : st.tm.InRange 10000
  microseconds : st.microseconds < 1000000
  errno : IntType.int.Holds st.savedErrno
  line : IntType.int.Holds st.line
  args : ∀ arg ∈ st.args, arg.Valid
  /-- Numbers want their reserve. -/
  room : (st.pieces.map fun arg => arg.text.length).sum + maxNumricSize ≤ smallBufferSize
  message : 10 ∉ st.message
  file : 10 ∉ sourceFile st.file ∧ 32 ∉ sourceFile st.file

end LogStatement

namespace LogStream

/-- What there is room for is taken, one argument after the other. -/
theorem foldlM_took {s : LogStream} {args : List LogArg} (hvalid : ∀ arg ∈ args, arg.Valid)
    (hroom : s.cur + (args.map fun arg => arg.text.length).sum + maxNumricSize ≤ smallBufferSize) :
    ∃ t, args.foldlM LogStream.insert s = .ok t ∧ t.records = s.records ++ args.map LogArg.text := by
  induction args generalizing s with
  | nil => exact ⟨s, rfl, (List.append_nil _).symm⟩
  | cons arg args ih =>
    rw [List.map_cons, List.sum_cons] at hroom
    have hneed : arg.need ≤ s.avail := by
      have hreserve : arg.need ≤ arg.text.length + maxNumricSize := by
        cases arg <;> simp only [LogArg.need, maxNumricSize] <;> omega
      unfold FixedBuffer.avail
      omega
    obtain ⟨t, ht, htook⟩ := insert_took (hvalid arg List.mem_cons_self) fun _ => hneed
    rcases htook with ⟨_, hcur, hrecords⟩ | ⟨hno, _⟩
    · obtain ⟨u, hu, hall⟩ := ih (s := t) (fun b hb => hvalid b (List.mem_cons_of_mem arg hb))
        (by rw [hcur]; omega)
      refine ⟨u, ?_, ?_⟩
      · rw [List.foldlM_cons, ht]
        exact hu
      · rw [hall, hrecords, List.append_assoc]
        rfl
    · exact absurd hneed hno

end LogStream

namespace LogStatement

variable {st : LogStatement}

/-- The texts of the three fixed pieces. -/
theorem Legible.head_text (h : st.Legible) :
    (st.head.take 3).map LogArg.text =
      [st.tm.text.take 17, paddedDecimal 48 6 st.microseconds ++ ascii " ", st.level.name] := by
  have hmicros : (paddedDecimal 48 6 st.microseconds).length = 6 :=
    length_paddedDecimal (by decide) h.microseconds
  have hseven : (paddedDecimal 48 6 st.microseconds ++ ascii " ").length = 7 := by
    rw [List.length_append, hmicros]
    rfl
  have hname : st.level.name.take 6 = st.level.name := by
    cases st.level <;> rfl
  show [st.tm.text.take 17, ((paddedDecimal 48 6 st.microseconds ++ ascii " ").take 31).take 7,
    st.level.name.take 6] = _
  have hwhole : ((paddedDecimal 48 6 st.microseconds ++ ascii " ").take 31).take 7 =
      paddedDecimal 48 6 st.microseconds ++ ascii " " := by
    rw [List.take_take, List.take_of_length_le (by rw [hseven]; decide)]
  rw [hname, hwhole]

theorem finish_text (st : LogStatement) : (st.finish.map LogArg.text).flatten =
    ascii " - " ++ (sourceFile st.file ++ 58 :: (ascii (toString st.line) ++ [10])) := by
  have hfile : (sourceFile st.file).take ((sourceFile st.file).length : Int).toNat = sourceFile st.file :=
    List.take_of_length_le le_rfl
  show ([ascii " - ", (sourceFile st.file).take ((sourceFile st.file).length : Int).toNat, [58],
    ascii (toString st.line), [10]] : List (List Byte)).flatten = _
  rw [hfile]
  simp

theorem Legible.length_file (h : st.Legible) : (sourceFile st.file).length ≤ smallBufferSize := by
  have hlen : (st.finish.map fun arg => arg.text.length).sum =
      (st.finish.map LogArg.text).flatten.length := by
    rw [List.length_flatten, List.map_map]
    rfl
  have hroom := h.room
  rw [finish_text, List.length_append, List.length_append] at hlen
  rw [pieces, List.map_append, List.sum_append] at hroom
  omega

theorem Legible.valid (h : st.Legible) : ∀ arg ∈ st.pieces, arg.Valid := by
  have hmicros : (paddedDecimal 48 6 st.microseconds).length = 6 :=
    length_paddedDecimal (by decide) h.microseconds
  have hfile := h.length_file
  have htm := h.tm.length_text le_rfl
  have hname : st.level.name.length = 6 := by
    cases st.level <;> rfl
  unfold smallBufferSize at hfile
  rw [pieces, head, formatTime, function, finish]
  refine List.forall_mem_append.mpr ⟨List.forall_mem_append.mpr ⟨List.forall_mem_append.mpr
    ⟨List.forall_mem_append.mpr ⟨List.forall_mem_append.mpr ⟨?_, ?_⟩, ?_⟩, ?_⟩, h.args⟩, ?_⟩
  · simp only [List.forall_mem_cons, LogArg.Valid, List.length_take, List.length_append, hmicros]
    refine ⟨⟨by decide, by decide, by omega⟩, ⟨by decide, by decide, ?_⟩, List.forall_mem_nil _⟩
    show (7 : Int) ≤ ((min 31 (6 + 1) : Nat) : Int)
    decide
  · simp only [List.forall_mem_cons, LogArg.Valid, hname]
    exact ⟨⟨by decide, by decide, by decide⟩, List.forall_mem_nil _⟩
  · split
    · simp only [List.forall_mem_cons, LogArg.Valid]
      exact ⟨trivial, trivial, ⟨.int, h.errno⟩, trivial, List.forall_mem_nil _⟩
    · exact List.forall_mem_nil _
  · split
    · simp only [List.forall_mem_cons, LogArg.Valid]
      exact ⟨trivial, trivial, List.forall_mem_nil _⟩
    · exact List.forall_mem_nil _
  · simp only [List.forall_mem_cons, LogArg.Valid]
    exact ⟨trivial, ⟨by omega, by omega, by omega⟩, trivial, ⟨.int, h.line⟩, trivial,
      List.forall_mem_nil _⟩

/-- The record as one text: the head, the message and the tail. -/
theorem Legible.text_eq (h : st.Legible) : (st.pieces.map LogArg.text).flatten =
    st.tm.text.take 17 ++ (paddedDecimal 48 6 st.microseconds ++ (32 :: (st.level.name ++
      (st.message ++ (ascii " - " ++ (sourceFile st.file ++ 58 :: (ascii (toString st.line) ++ [10]))))))) := by
  have hsplit : st.pieces = st.head.take 3 ++ (st.head.drop 3 ++ st.function ++ st.args) ++ st.finish := by
    rw [pieces, List.append_assoc (st.head.drop 3), ← List.append_assoc (st.head.take 3),
      List.take_append_drop, List.append_assoc st.head]
  have hblank : ascii " " = [32] := rfl
  rw [hsplit, List.map_append, List.map_append, List.flatten_append, List.flatten_append, h.head_text,
    finish_text]
  rw [LogStatement.message, hblank]
  simp only [List.flatten_cons, List.flatten_nil, List.append_nil, List.append_assoc,
    List.cons_append, List.nil_append]

/-- A numeral is made of digits and a sign. -/
theorem notMem_numeral {c : Byte} (hdigit : isDigit c = false) (hsign : c ≠ 45) (v : Int) :
    c ∉ ascii (toString v) := by
  have hnat : ∀ n : Nat, c ∉ ascii (toString n) := by
    intro n hmem
    rw [List.all_eq_true.mp (isDigit_toString n) c hmem] at hdigit
    cases hdigit
  by_cases hneg : v < 0
  · rw [ascii_toString_neg hneg]
    exact List.not_mem_cons_of_ne_of_not_mem hsign (hnat _)
  · rw [ascii_toString_nonneg (by omega)]
    exact hnat _

/-- A record is read from the front of what it stands in. -/
theorem readRecord_append {minute name message file : List Byte} {microseconds : Nat}
    {level : LogLevel} (line : Int) (stale : List Byte) (hminute : minute.length = 17) (hmicros : microseconds < 1000000)
    (hname : level.name = name) (hmessage : 10 ∉ message) (hfile : 10 ∉ file ∧ 32 ∉ file) :
    readRecord (minute ++ (paddedDecimal 48 6 microseconds ++ (32 :: (name ++
      (message ++ (ascii " - " ++ (file ++ 58 :: (ascii (toString line) ++ 10 :: stale)))))))) =
      some { minute, microseconds, level, message, file, line } := by
  have hsix : (paddedDecimal 48 6 microseconds).length = 6 := length_paddedDecimal (by decide) hmicros
  have hlevel : name.length = 6 := by
    rw [← hname]
    cases level <;> rfl
  have hblank : ascii " - " = ascii " -" ++ [32] := rfl
  generalize hrest : message ++ (ascii " - " ++ (file ++ 58 :: (ascii (toString line) ++ 10 :: stale))) = rest
  have hone : ∀ xs : List Byte, (minute ++ (paddedDecimal 48 6 microseconds ++ xs)).drop 23 = xs := by
    intro xs
    rw [← List.append_assoc]
    exact List.drop_left' (by rw [List.length_append, hminute, hsix])
  have htwo : ∀ xs : List Byte, (32 :: (name ++ xs)).drop 7 = xs := by
    intro xs
    exact List.drop_left' hlevel
  generalize hbytes : minute ++ (paddedDecimal 48 6 microseconds ++ (32 :: (name ++ rest))) = bytes
  have h17 : (bytes.drop 17).take 6 = paddedDecimal 48 6 microseconds := by
    rw [← hbytes, List.drop_left' hminute, List.take_left' hsix]
  have h23 : bytes.drop 23 = 32 :: (name ++ rest) := by
    rw [← hbytes, hone]
  have h24 : (bytes.drop 24).take 6 = name := by
    rw [show 24 = 23 + 1 from rfl, ← List.drop_drop, h23]
    exact List.take_left' hlevel
  have h30 : bytes.drop 30 = rest := by
    rw [show 30 = 23 + 7 from rfl, ← List.drop_drop, h23, htwo]
  have htake : bytes.take 17 = minute := by
    rw [← hbytes, List.take_left' hminute]
  have htail : rest = (message ++ (ascii " - " ++ (file ++ 58 :: ascii (toString line)))) ++ 10 :: stale := by
    rw [← hrest]
    simp only [List.append_assoc, List.cons_append]
  have hnewline : 10 ∉ message ++ (ascii " - " ++ (file ++ 58 :: ascii (toString line))) := by
    simp only [List.mem_append, List.mem_cons, not_or]
    exact ⟨hmessage, by decide, hfile.1, by decide, notMem_numeral (by decide) (by decide) line⟩
  have hfind : findByte 10 (bytes.drop 30) =
      some (message ++ (ascii " - " ++ (file ++ 58 :: ascii (toString line))), stale) := by
    rw [h30]
    exact findByte_eq_some.mpr ⟨htail, hnewline⟩
  have hcolon : findLast 58 (message ++ (ascii " - " ++ (file ++ 58 :: ascii (toString line)))) =
      some (message ++ (ascii " - " ++ file), ascii (toString line)) := by
    have hshape : message ++ (ascii " - " ++ (file ++ 58 :: ascii (toString line))) =
        (message ++ (ascii " - " ++ file)) ++ 58 :: ascii (toString line) := by
      simp only [List.append_assoc]
    rw [hshape]
    exact findLast_append (notMem_numeral (by decide) (by decide) line) _
  have hspace : findLast 32 (message ++ (ascii " - " ++ file)) = some (message ++ ascii " -", file) := by
    have hshape : message ++ (ascii " - " ++ file) = (message ++ ascii " -") ++ 32 :: file := by
      rw [hblank]
      simp only [List.append_assoc, List.singleton_append]
    rw [hshape]
    exact findLast_append hfile.2 _
  have hlen : (message ++ ascii " -").length - 2 = message.length := by
    rw [List.length_append]
    exact Nat.add_sub_cancel _ 2
  have hread : readLevel name = some level := hname ▸ readLevel_name level
  simp only [readRecord, h17, h24, hfind, hcolon, hspace, hread, readDecimal_paddedDecimal,
    readInteger_toString, htake, hlen, List.drop_left, List.take_left, Option.bind_eq_bind,
    Option.bind_some, if_true]

/-- The array of the stream begins with the record. -/
theorem Legible.read_stream (h : st.Legible) (memory : List Byte)
    (hmemory : memory.length = smallBufferSize) :
    ∃ s, st.stream memory hmemory = .ok s ∧ readRecord s.slice = some st.record := by
  have hroom : (FixedBuffer.new memory hmemory).cur + (st.pieces.map fun arg => arg.text.length).sum +
      maxNumricSize ≤ smallBufferSize := by
    rw [show (FixedBuffer.new memory hmemory).cur = 0 from rfl, Nat.zero_add]
    exact h.room
  obtain ⟨s, hs, hrecords⟩ := LogStream.foldlM_took h.valid hroom
  have hempty : (FixedBuffer.new memory hmemory).records = [] := rfl
  rw [hempty, List.nil_append] at hrecords
  refine ⟨s, hs, ?_⟩
  -- the array: the record, and the rest of the memory
  have hslice : s.slice = (st.pieces.map LogArg.text).flatten ++ s.data.drop s.cur := by
    rw [s.slice_eq_data, ← hrecords, ← s.contents, List.take_append_drop]
  have hminute : (st.tm.text.take 17).length = 17 :=
    List.length_take_of_le (h.tm.length_text le_rfl)
  have hread := readRecord_append st.line (s.data.drop s.cur) hminute h.microseconds
    (rfl : st.level.name = _) h.message h.file
  rw [hslice, h.text_eq]
  simp only [List.append_assoc, List.cons_append, List.nil_append]
  exact hread

/-- **A record can be read back.** The array that `~Logger` hands to `g_output` is read as
    what the statement was made of, whatever was in the memory before. -/
theorem record_reads_back (st : LogStatement) (memory : List Byte)
    (hmemory : memory.length = smallBufferSize) (h : st.Legible) :
    ∃ bytes, st.output memory hmemory = .ok (bytes, decide (st.level = .fatal)) ∧
      bytes.length = smallBufferSize ∧ readRecord bytes = some st.record := by
  obtain ⟨s, hs, hread⟩ := h.read_stream memory hmemory
  refine ⟨s.slice, ?_, ?_, hread⟩
  · rw [output, hs]
    rfl
  · rw [s.slice_eq_data, s.length_data]

theorem sampleStatement_legible : sampleStatement.Legible where
  tm := ⟨by decide, by decide, by decide, by decide, by decide, by decide, by decide⟩
  microseconds := by decide
  errno := by decide
  line := by decide
  args := fun arg hmem => by
    rw [List.mem_singleton.mp hmem]
    trivial
  room := by decide +kernel
  message := by decide +kernel
  file := by decide +kernel

/-- The sample record in a memory full of the letter A. -/
theorem record_reads_back_sample : ∃ bytes,
    sampleStatement.output (List.replicate smallBufferSize 65) List.length_replicate =
        .ok (bytes, false) ∧
      bytes.length = smallBufferSize ∧
      readRecord bytes = some {
        minute := ascii "2022/10/26 12:30:"
        microseconds := 5
        level := .info
        message := ascii "up"
        file := ascii "a.cpp"
        line := 7 } := by
  obtain ⟨bytes, hout, hlen, hread⟩ := record_reads_back sampleStatement
    (List.replicate smallBufferSize 65) List.length_replicate sampleStatement_legible
  refine ⟨bytes, hout, hlen, ?_⟩
  rw [hread]
  decide +kernel

end LogStatement

end DamnWebServer
