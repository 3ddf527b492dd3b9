import DamnWebServer.Log.AsyncBuffers
import DamnWebServer.Log.Logger

/-!
# What the log sink receives

`length()` is the size of the array, whatever stands in it, and both `~Logger` and
`thread_func` pass `length()` bytes on. A buffer is never full: `append` wants one
byte more than it takes, and a number is written with its terminator. So the sink
gets stale bytes behind the record, every time.
-/

namespace DamnWebServer

namespace FixedBuffer

variable {size : Nat}

theorem slice_eq_data (b : FixedBuffer size) : b.slice = b.data :=
  List.take_of_length_le (Nat.le_of_eq b.length_data)

/-- The `length()` bytes from `data()` on are the contents of a full buffer only. -/
theorem slice_eq_iff (b : FixedBuffer size) : b.slice = b.records.flatten ↔ b.cur = size := by
  rw [slice_eq_data, ← b.contents]
  constructor
  · intro h
    have hlen := congrArg List.length h
    have hcur := b.cur_le
    rw [List.length_take, b.length_data] at hlen
    omega
  · intro h
    rw [h]
    exact b.slice_eq_data.symm

/-- There is a byte left behind the contents. -/
def NotFull (b : FixedBuffer size) : Prop := b.cur < size

theorem NotFull.slice_ne {b : FixedBuffer size} (h : b.NotFull) :
    b.slice ≠ b.records.flatten := by
  intro hslice
  exact Nat.ne_of_lt h (b.slice_eq_iff.mp hslice)

theorem new_notFull (hsize : 0 < size) (memory : List Byte) (h : memory.length = size) :
    (new memory h).NotFull :=
  hsize

theorem NotFull.append {b : FixedBuffer size} (h : b.NotFull) (buf : List Byte) :
    (b.append buf).NotFull := by
  by_cases hroom : buf.length < b.avail
  · rw [FixedBuffer.append, dif_pos hroom]
    unfold avail at hroom
    change b.cur + buf.length < size
    omega
  · rw [append_dropped hroom]
    exact h

theorem NotFull.reset {b : FixedBuffer size} (h : b.NotFull) : b.reset.NotFull :=
  Nat.zero_lt_of_lt h

theorem store_ok {b c : FixedBuffer size} {bytes : List Byte} (h : b.store bytes = .ok c) :
    b.cur + bytes.length ≤ size ∧ c.cur = b.cur := by
  unfold store at h
  split at h
  · next hroom =>
    cases h
    exact ⟨hroom, rfl⟩
  · cases h

theorem add_ok {b c : FixedBuffer size} {len : Nat} (h : b.add len = .ok c) :
    c.cur = b.cur + len := by
  unfold add at h
  split at h
  · cases h
    rfl
  · cases h

/-- `append` and `reset`. -/
inductive Op where
  | append (buf : List Byte)
  | reset

def apply (b : FixedBuffer size) : Op → FixedBuffer size
  | .append buf => b.append buf
  | .reset => b.reset

theorem NotFull.apply {b : FixedBuffer size} (h : b.NotFull) (op : Op) : (b.apply op).NotFull := by
  cases op with
  | append buf => exact h.append buf
  | reset => exact h.reset

theorem NotFull.foldl_apply {b : FixedBuffer size} (h : b.NotFull) (ops : List Op) :
    (ops.foldl FixedBuffer.apply b).NotFull := by
  induction ops generalizing b with
  | nil => exact h
  | cons op ops ih => exact ih (h.apply op)

end FixedBuffer

namespace LogStream

open FixedBuffer (NotFull store_ok add_ok)

/-- The terminator was stored behind the digits. -/
theorem formatInteger_notFull {s t : LogStream} (h : s.NotFull) {num : Int}
    (hins : s.formatInteger num = .ok t) : t.NotFull := by
  unfold formatInteger at hins
  split at hins
  · obtain ⟨stored, _, hrest⟩ := bind_eq_ok hins
    obtain ⟨u, hu, hrest⟩ := bind_eq_ok hrest
    obtain ⟨v, hv, hadd⟩ := bind_eq_ok hrest
    obtain ⟨hroom, hcur⟩ := store_ok hu
    have hv := (store_ok hv).2
    have ht := add_ok hadd
    rw [List.length_append, List.length_singleton] at hroom
    unfold NotFull
    omega
  · cases hins
    exact h

theorem formatDouble_notFull {s t : LogStream} {v : DoubleText}
    (hins : s.formatDouble v = .ok t) : t.NotFull := by
  unfold formatDouble at hins
  split at hins
  · next hroom =>
    obtain ⟨u, hu, hadd⟩ := bind_eq_ok hins
    have hcur := (store_ok hu).2
    have ht := add_ok hadd
    have hlen := v.length_le
    unfold FixedBuffer.avail maxNumricSize at hroom
    unfold NotFull
    omega
  · cases hins

theorem appendTemplate_notFull {s t : LogStream} (h : s.NotFull) {data : List Byte} {len : Int}
    (hins : s.appendTemplate data len = .ok t) : t.NotFull := by
  unfold appendTemplate at hins
  split at hins
  · split at hins
    · cases hins
      exact h.append _
    · cases hins
  · cases hins
    exact h

/-- No argument fills the stream. -/
theorem insert_notFull {s t : LogStream} (h : s.NotFull) {arg : LogArg}
    (hins : s.insert arg = .ok t) : t.NotFull := by
  cases arg with
  | bool v =>
    cases hins
    exact h.append _
  | integer v => exact formatInteger_notFull h hins
  | double v => exact formatDouble_notFull hins
  | char v =>
    cases hins
    exact h.append _
  | cstring str =>
    cases str with
    | some str =>
      cases hins
      exact h.append _
    | none =>
      cases hins
      exact h.append _
  | string v =>
    cases hins
    exact h.append _
  | buffer v =>
    cases hins
    exact h.append _
  | template data len => exact appendTemplate_notFull h hins

theorem foldlM_insert_notFull {s t : LogStream} (h : s.NotFull) {args : List LogArg}
    (hins : args.foldlM LogStream.insert s = .ok t) : t.NotFull := by
  induction args generalizing s with
  | nil =>
    cases hins
    exact h
  | cons arg args ih =>
    rw [List.foldlM_cons] at hins
    obtain ⟨u, hu, hrest⟩ := bind_eq_ok hins
    exact ih (insert_notFull h hu) hrest

end LogStream

theorem LogStatement.stream_notFull {st : LogStatement} {memory : List Byte}
    {h : memory.length = smallBufferSize} {s : LogStream} (hs : st.stream memory h = .ok s) :
    s.NotFull :=
  LogStream.foldlM_insert_notFull (FixedBuffer.new_notFull (by decide) memory h) hs

namespace AsyncLogging

variable {P : LogBuffer → Prop} {s t : AsyncLogging}

/-- All the buffers there are, and those handed over as they were then, have some
    property. -/
structure Each (P : LogBuffer → Prop) (s : AsyncLogging) : Prop where
  current : ∀ b, s.currentBuffer = some b → P b
  next : ∀ b, s.nextBuffer = some b → P b
  buffers : ∀ b, some b ∈ s.buffers → P b
  one : ∀ b, s.buffer1 = some b → P b
  two : ∀ b, s.buffer2 = some b → P b
  toWrite : ∀ b, some b ∈ s.buffersToWrite → P b
  handed : ∀ b ∈ s.handed, P b

/-- A property of new buffers that `append` and `reset` keep. -/
structure Kept (P : LogBuffer → Prop) : Prop where
  new : ∀ memory h, P (.new memory h)
  append : ∀ b logline, P b → P (b.append logline)
  reset : ∀ b, P b → P b.reset

theorem Each.append (h : Each P s) (hP : Kept P) {logline : List Byte} {fresh : LogBuffer}
    (hfresh : P fresh) (ht : s.append logline fresh = .ok t) : Each P t := by
  obtain ⟨current, hcur, hrest⟩ := bind_eq_ok ht
  have hcur := h.current current (deref_eq_ok hcur)
  split at hrest
  · cases hrest
    refine { h with current := ?_ }
    rintro b ⟨⟩
    exact hP.append _ _ hcur
  · obtain ⟨next, hnext, hend⟩ := bind_eq_ok hrest
    cases hend
    cases hnext
    refine { h with current := ?_, next := ?_, buffers := ?_ }
    · rintro b ⟨⟩
      refine hP.append _ _ ?_
      cases hspare : s.nextBuffer with
      | none => exact hfresh
      | some c => exact h.next c hspare
    · rintro b ⟨⟩
    · intro b hb
      rcases List.mem_append.mp hb with hb | hb
      · exact h.buffers b hb
      · exact h.current b (List.mem_singleton.mp hb).symm

theorem Each.swapSection (h : Each P s) : Each P s.swapSection where
  current := h.one
  next b hb := by
    change (if s.nextBuffer.isNone then s.buffer2 else s.nextBuffer) = some b at hb
    split at hb
    · exact h.two b hb
    · exact h.next b hb
  buffers := h.toWrite
  one b hb := by cases hb
  two b hb := by
    change (if s.nextBuffer.isNone then none else s.buffer2) = some b at hb
    split at hb
    · cases hb
    · exact h.two b hb
  toWrite b hb := by
    rcases List.mem_append.mp hb with hb | hb
    · exact h.buffers b hb
    · exact h.current b (List.mem_singleton.mp hb).symm
  handed := h.handed

theorem takeBack_each (hP : Kept P) {bs rest : List (Option LogBuffer)} {b : LogBuffer}
    (h : ∀ c, some c ∈ bs → P c) (htake : takeBack bs = .ok (b, rest)) :
    P b ∧ ∀ c, some c ∈ rest → P c := by
  unfold takeBack at htake
  split at htake
  · cases htake
  · next p hlast =>
    obtain ⟨c, hc, hend⟩ := bind_eq_ok htake
    cases hend
    rw [deref_eq_ok hc] at hlast
    exact ⟨hP.reset c (h c (List.mem_of_getLast? hlast)),
      fun c hc => h c (List.mem_of_mem_dropLast hc)⟩

theorem Each.backStep (h : Each P s) (hP : Kept P) (ht : BackStep s t) : Each P t := by
  cases ht with
  | rest _ | test _ | wait _ | written _ | keep1 _ | keep2 _ | leave _ => exact { h with }
  | entry _ => refine { h with one := ?_, two := ?_ } <;> rintro b ⟨⟩ <;> exact hP.new _ _
  | swap _ => exact h.swapSection
  | write _ hb =>
    refine { h with handed := ?_ }
    intro c hc
    rcases List.mem_append.mp hc with hc | hc
    · exact h.handed c hc
    · rw [List.mem_singleton.mp hc]
      exact h.toWrite _ (List.mem_of_getElem? hb)
  | trim _ => exact { h with toWrite := fun b hb => h.toWrite b (List.mem_of_mem_take hb) }
  | refill1 _ htake =>
    obtain ⟨hone, hrest⟩ := takeBack_each hP h.toWrite htake
    refine { h with one := ?_, toWrite := hrest }
    rintro b ⟨⟩
    exact hone
  | refill2 _ htake =>
    obtain ⟨htwo, hrest⟩ := takeBack_each hP h.toWrite htake
    refine { h with two := ?_, toWrite := hrest }
    rintro b ⟨⟩
    exact htwo
  | clear _ => exact { h with toWrite := fun b hb => absurd hb List.not_mem_nil }

/-- **What `append` and `reset` keep**, every buffer of the logger has, wherever it
    circulates. -/
theorem reachable_each (hP : Kept P) (h : system.Reachable s) : Each P s := by
  refine h.invariant ?_ ?_
  · rintro _ rfl
    refine ⟨?_, ?_, ?_, ?_, ?_, ?_, ?_⟩ <;> intro b hb <;> cases hb <;> exact hP.new _ _
  · intro s l t hs hstep
    obtain ⟨_, hperf⟩ := hstep
    cases l with
    | append logline memory hmem => exact hs.append hP (hP.new memory hmem) hperf
    | start | callStop | storeRunning | notify | join =>
      cases hperf
      exact { hs with }
    | backend => exact hs.backStep hP (backStep_of_threadFunc hperf)

theorem kept_notFull : Kept (fun b : LogBuffer => b.NotFull) where
  new := FixedBuffer.new_notFull (by decide)
  append _ logline h := h.append logline
  reset _ h := h.reset

end AsyncLogging

/-- **The sink never receives exactly what was logged.** After any operations on a
    fixed buffer, for any log statement and for every buffer handed to the log file,
    the `length()` bytes from `data()` on are not what was accepted. -/
theorem sink_never_exact {size : Nat} (hsize : 0 < size) (memory : List Byte)
    (h : memory.length = size) (ops : List FixedBuffer.Op) (st : LogStatement)
    (streamMemory : List Byte) (hstream : streamMemory.length = smallBufferSize)
    (s : AsyncLogging) :
    (ops.foldl FixedBuffer.apply (.new memory h)).slice ≠
        (ops.foldl FixedBuffer.apply (.new memory h)).records.flatten ∧
      (∀ u bytes fatal, st.stream streamMemory hstream = .ok u →
        st.output streamMemory hstream = .ok (bytes, fatal) → bytes ≠ u.records.flatten) ∧
      (AsyncLogging.system.Reachable s → ∀ b ∈ s.handed, b.slice ≠ b.records.flatten) := by
  refine ⟨?_, ?_, ?_⟩
  · exact (FixedBuffer.NotFull.foldl_apply (FixedBuffer.new_notFull hsize memory h) ops).slice_ne
  · intro u bytes fatal hu hout
    obtain ⟨v, hv, hend⟩ := bind_eq_ok hout
    cases hu.symm.trans hv
    cases hend
    exact (LogStatement.stream_notFull hu).slice_ne
  · intro hs b hb
    exact ((AsyncLogging.reachable_each AsyncLogging.kept_notFull hs).handed b hb).slice_ne

/-- `LOG_INFO << "up"` in line 7 of a file. -/
def sampleStatement : LogStatement where
  level := .info
  file := ascii "tests/a.cpp"
  line := 7
  tm := ⟨122, 9, 26, 12, 30, 59⟩
  microseconds := 5
  args := [.cstring (some (ascii "up"))]

/-- The record of the sample statement is complete, and `g_output` gets 4000 bytes. A
    buffer of four bytes has one in it. -/
theorem sink_never_exact_sample :
    (FixedBuffer.apply (.new [0, 0, 0, 0] rfl : FixedBuffer 4) (.append [1])).slice ≠ [1] ∧
      ∃ s : LogStream,
        sampleStatement.stream (List.replicate smallBufferSize 0) List.length_replicate = .ok s ∧
        s.records.flatten =
          ascii "2022/10/26 12:30:000005 INFO " ++ [0] ++ ascii "up - a.cpp:7\n" ∧
        sampleStatement.output (List.replicate smallBufferSize 0) List.length_replicate =
          .ok (s.slice, false) ∧
        s.slice ≠ s.records.flatten := by
  have hval : (sampleStatement.stream (List.replicate smallBufferSize 0)
      List.length_replicate).toOption.map (fun s => s.records.flatten) =
        some (ascii "2022/10/26 12:30:000005 INFO " ++ [0] ++ ascii "up - a.cpp:7\n") := by
    decide +kernel
  obtain ⟨s, hs, hrecords⟩ := Option.map_eq_some_iff.mp hval
  have hstream := eq_ok_of_toOption hs
  have hout : sampleStatement.output (List.replicate smallBufferSize 0) List.length_replicate =
      .ok (s.slice, false) := by
    rw [LogStatement.output, hstream]
    rfl
  have hnever := sink_never_exact (by decide) [0, 0, 0, 0] rfl [.append [1]] sampleStatement
    (List.replicate smallBufferSize 0) List.length_replicate .new
  exact ⟨hnever.1, s, hstream, hrecords, hout, hnever.2.1 s _ _ hstream hout⟩

/-- One byte in a buffer of four. -/
theorem slice_of_one_byte :
    ¬∀ size, 0 < size → ∀ (memory : List Byte) (h : memory.length = size)
      (ops : List FixedBuffer.Op), (ops.foldl FixedBuffer.apply (.new memory h)).slice =
        (ops.foldl FixedBuffer.apply (.new memory h)).records.flatten := by
  intro hall
  have hslice := hall 4 (by decide) [0, 0, 0, 0] rfl [.append [1]]
  revert hslice
  decide

end DamnWebServer
