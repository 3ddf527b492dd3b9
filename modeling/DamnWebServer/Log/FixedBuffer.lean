import DamnWebServer.Base.Machine

/-!
# The fixed buffer of the log

`Fixed_Buffer<SIZE>` (`base/log/fixed_buffer.h`): an array and the pointer `cur_`
behind its contents. `records` is a record of what was put in since the last
`reset()`; the array up to `cur_` is exactly that, which every operation keeps.
`length()` does not look at `cur_` at all.
-/

namespace DamnWebServer

/-- `SMALL_BUFFER_SIZE`. -/
def smallBufferSize : Nat := 4000

/-- `LARGE_BUFFER_SIZE`. -/
def largeBufferSize : Nat := 4000 * 1000

/-- `Fixed_Buffer<SIZE>`, with `cur_` as an offset from `data_`. -/
structure FixedBuffer (size : Nat) where
  data : List Byte
  cur : Nat
  /-- The payloads accepted since the last `reset()`. -/
  records : List (List Byte)
  length_data : data.length = size
  cur_le : cur ≤ size
  contents : data.take cur = records.flatten

namespace FixedBuffer

variable {size : Nat}

/-- `Fixed_Buffer()` over memory that holds `data`; zeros where `bzero()` follows. -/
def new (data : List Byte) (h : data.length = size) : FixedBuffer size where
  data := data
  cur := 0
  records := []
  length_data := h
  cur_le := Nat.zero_le size
  contents := rfl

/-- `Fixed_Buffer()` and `bzero()`. -/
def zeroed : FixedBuffer size := new (List.replicate size 0) List.length_replicate

def avail (b : FixedBuffer size) : Nat := size - b.cur

/-- `length()`: the distance from `data_` to `end()`. -/
def length (_ : FixedBuffer size) : Nat := size

/-- The `length()` bytes from `data()` on. -/
def slice (b : FixedBuffer size) : List Byte := b.data.take b.length

/-- The array with some bytes stored behind the contents. -/
def fill (b : FixedBuffer size) (bytes : List Byte) : List Byte :=
  b.data.take b.cur ++ bytes ++ b.data.drop (b.cur + bytes.length)

theorem length_take_cur (b : FixedBuffer size) : (b.data.take b.cur).length = b.cur := by
  have hcur := b.cur_le
  rw [List.length_take, b.length_data]
  omega

theorem length_fill (b : FixedBuffer size) {bytes : List Byte}
    (h : b.cur + bytes.length ≤ size) : (b.fill bytes).length = size := by
  have hlen := b.length_data
  simp only [fill, List.length_append, List.length_take, List.length_drop]
  omega

/-- What is stored behind the contents leaves them alone. -/
theorem take_fill (b : FixedBuffer size) (bytes : List Byte) :
    (b.fill bytes).take b.cur = b.records.flatten := by
  rw [fill, List.append_assoc, List.take_left' b.length_take_cur, b.contents]

theorem take_fill_add (b : FixedBuffer size) (bytes : List Byte) :
    (b.fill bytes).take (b.cur + bytes.length) = b.records.flatten ++ bytes := by
  have hlen : (b.data.take b.cur ++ bytes).length = b.cur + bytes.length := by
    rw [List.length_append, b.length_take_cur]
  rw [fill, List.take_left' hlen, b.contents]

/-- `append(buf, len)`: a payload that does not leave a byte free is dropped. -/
def append (b : FixedBuffer size) (buf : List Byte) : FixedBuffer size :=
  if h : buf.length < b.avail then
    have hroom : b.cur + buf.length ≤ size := by unfold avail at h; omega
    { data := b.fill buf
      cur := b.cur + buf.length
      records := b.records ++ [buf]
      length_data := b.length_fill hroom
      cur_le := hroom
      contents := by rw [take_fill_add, List.flatten_append, List.flatten_singleton] }
  else b

/-- Stores through the pointer `current()`. -/
def store (b : FixedBuffer size) (bytes : List Byte) : Except Fault (FixedBuffer size) :=
  if h : b.cur + bytes.length ≤ size then
    .ok { b with
      data := b.fill bytes
      length_data := b.length_fill h
      contents := b.take_fill bytes }
  else .error .badCopy

/-- `add(len)`: the bytes behind the contents become contents. -/
def add (b : FixedBuffer size) (len : Nat) : Except Fault (FixedBuffer size) :=
  if h : b.cur + len ≤ size then
    .ok { b with
      cur := b.cur + len
      records := b.records ++ [(b.data.drop b.cur).take len]
      cur_le := h
      contents := by
        rw [List.take_add, List.flatten_append, List.flatten_singleton, b.contents] }
  else .error .badCopy

def reset (b : FixedBuffer size) : FixedBuffer size where
  data := b.data
  cur := 0
  records := []
  length_data := b.length_data
  cur_le := Nat.zero_le size
  contents := rfl

theorem length_records (b : FixedBuffer size) : b.records.flatten.length = b.cur := by
  rw [← b.contents, b.length_take_cur]

theorem avail_of_empty {b : FixedBuffer size} (h : b.records = []) : b.avail = size := by
  have hlen := b.length_records
  rw [h] at hlen
  rw [avail, ← hlen]
  rfl

theorem append_records {b : FixedBuffer size} {buf : List Byte} (h : buf.length < b.avail) :
    (b.append buf).records = b.records ++ [buf] := by
  rw [append, dif_pos h]

theorem append_dropped {b : FixedBuffer size} {buf : List Byte} (h : ¬buf.length < b.avail) :
    b.append buf = b :=
  dif_neg h

/-- A store over the beginning of what was stored before. -/
theorem fill_fill {b c : FixedBuffer size} {xs ys : List Byte} (hdata : c.data = b.fill xs)
    (hcur : c.cur = b.cur) (h : ys.length ≤ xs.length) :
    c.fill ys = b.fill (ys ++ xs.drop ys.length) := by
  have hlen := b.length_take_cur
  have htake : c.data.take c.cur = b.data.take b.cur := by
    rw [hdata, hcur, fill, List.append_assoc, List.take_left' hlen]
  have hdrop : c.data.drop (c.cur + ys.length) =
      xs.drop ys.length ++ b.data.drop (b.cur + xs.length) := by
    rw [hdata, hcur, fill, List.append_assoc, ← List.drop_drop, List.drop_left' hlen,
      List.drop_append_of_le_length h]
  have hsum : ys.length + (xs.length - ys.length) = xs.length := by omega
  rw [fill, htake, hdrop, fill, List.length_append, List.length_drop, hsum]
  simp only [List.append_assoc]

theorem store_of_le {b : FixedBuffer size} {bytes : List Byte} (h : b.cur + bytes.length ≤ size) :
    ∃ c, b.store bytes = .ok c ∧ c.data = b.fill bytes ∧ c.cur = b.cur ∧ c.records = b.records :=
  ⟨_, dif_pos h, rfl, rfl, rfl⟩

/-- What was stored through `current()` becomes contents. -/
theorem add_of_le {b c : FixedBuffer size} {bytes : List Byte} (hdata : c.data = b.fill bytes)
    (hcur : c.cur = b.cur) (hrecords : c.records = b.records) (len : Nat)
    (hlen : len ≤ bytes.length) (h : b.cur + bytes.length ≤ size) :
    ∃ d, c.add len = .ok d ∧ d.data = b.fill bytes ∧ d.cur = b.cur + len ∧
      d.records = b.records ++ [bytes.take len] := by
  have hroom : c.cur + len ≤ size := by omega
  refine ⟨_, dif_pos hroom, hdata, by rw [← hcur], ?_⟩
  change c.records ++ [(c.data.drop c.cur).take len] = _
  rw [hrecords, hdata, hcur, fill, List.append_assoc, List.drop_left' b.length_take_cur,
    List.take_append_of_le_length hlen]

end FixedBuffer

end DamnWebServer
