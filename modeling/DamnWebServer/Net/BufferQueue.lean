import DamnWebServer.Lib.Transition
import DamnWebServer.Net.Buffer

/-!
# The buffer as a byte queue

`Buffer.Valid` is the layout `k_cheap_prepend <= reader_index_ <= writer_index_
<= buffer_.size()`. Every operation keeps it, and on valid buffers every
operation is the matching operation of a first-in first-out queue of bytes:
`append` and `read_fd` enqueue, the `retrieve` family dequeues. Growth,
compaction and the index reset are invisible from outside.
-/

namespace DamnWebServer

namespace Buffer

/-- The layout of a buffer between operations. -/
structure Valid (b : Buffer) : Prop where
  prepend_le : kCheapPrepend ≤ b.readerIndex
  reader_le : b.readerIndex ≤ b.writerIndex
  writer_le : b.writerIndex ≤ b.buffer.length
  size_le : b.buffer.length ≤ maxSize

instance (b : Buffer) : Decidable b.Valid :=
  decidable_of_iff (kCheapPrepend ≤ b.readerIndex ∧ b.readerIndex ≤ b.writerIndex ∧
      b.writerIndex ≤ b.buffer.length ∧ b.buffer.length ≤ maxSize)
    ⟨fun ⟨hprepend, hreader, hwriter, hsize⟩ => ⟨hprepend, hreader, hwriter, hsize⟩,
      fun h => ⟨h.prepend_le, h.reader_le, h.writer_le, h.size_le⟩⟩

namespace Valid

variable {b : Buffer}

theorem readableBytes_eq (h : b.Valid) : b.readableBytes = b.writerIndex - b.readerIndex := by
  have hsize := h.size_le
  have hw := h.writer_le
  exact sizeT_sub h.reader_le (by unfold maxSize at hsize; omega)

theorem writableBytes_eq (h : b.Valid) : b.writableBytes = b.buffer.length - b.writerIndex := by
  have hsize := h.size_le
  exact sizeT_sub h.writer_le (by unfold maxSize at hsize; omega)

theorem length_readable (h : b.Valid) : b.readable.length = b.readableBytes := by
  have hw := h.writer_le
  rw [h.readableBytes_eq, readable, range, List.length_take, List.length_drop]
  omega

theorem copyFrom_peek (h : b.Valid) {len : Nat} (hlen : len ≤ b.readableBytes) :
    b.copyFrom b.peek len = .ok (b.readable.take len) := by
  have hr := h.reader_le
  have hw := h.writer_le
  rw [h.readableBytes_eq] at hlen
  rw [copyFrom, peek, if_pos (by omega), readable, range, range, List.take_take]
  congr 2
  omega

end Valid

/-- Offsets and sizes of a vector never reach `2^64`. -/
theorem sizeT_of_le_maxSize {n : Nat} (h : n ≤ maxSize) : sizeT n = n :=
  sizeT_of_lt (by unfold maxSize at h; omega)

-- ════════════════════════════════════════════════════════════════════════
-- Construction and dequeuing
-- ════════════════════════════════════════════════════════════════════════

theorem new_valid {n : Nat} (h : kCheapPrepend + n ≤ maxSize) : (new n).Valid := by
  have hlen : (new n).buffer.length = kCheapPrepend + n := by
    rw [new, List.length_replicate]
    exact_mod_cast sizeT_of_le_maxSize h
  refine ⟨le_rfl, le_rfl, ?_, ?_⟩
  · rw [hlen]
    exact Nat.le_add_right _ _
  · rw [hlen]
    exact h

@[simp] theorem new_readable (n : Nat) : (new n).readable = [] := by
  simp [readable, range, new]

theorem fresh_valid : (new kInitialSize).Valid := new_valid (by decide)

theorem fresh_readable : (new kInitialSize).readable = [] := new_readable _

theorem fresh_writer : (new kInitialSize).writerIndex = 8 := rfl

/-- A buffer that holds given bytes. -/
def holding (data : List Byte) : Buffer where
  buffer := List.replicate kCheapPrepend 0 ++ data
  readerIndex := kCheapPrepend
  writerIndex := kCheapPrepend + data.length

theorem holding_valid {data : List Byte} (hfit : data.length + kCheapPrepend ≤ maxSize) :
    (holding data).Valid := by
  have hlen : (List.replicate kCheapPrepend (0 : Byte) ++ data).length =
      kCheapPrepend + data.length := by
    rw [List.length_append, List.length_replicate]
  refine ⟨Nat.le_refl _, Nat.le_add_right _ _, Nat.le_of_eq hlen.symm, ?_⟩
  change (List.replicate kCheapPrepend (0 : Byte) ++ data).length ≤ maxSize
  omega

theorem holding_readable (data : List Byte) : (holding data).readable = data := by
  rw [readable, range, holding]
  simp

theorem retrieveAll_valid {b : Buffer} (h : b.Valid) : b.retrieveAll.Valid := by
  have h₁ := h.prepend_le
  have h₂ := h.reader_le
  have h₃ := h.writer_le
  refine ⟨le_rfl, le_rfl, ?_, h.size_le⟩
  change kCheapPrepend ≤ b.buffer.length
  omega

@[simp] theorem retrieveAll_readable (b : Buffer) : b.retrieveAll.readable = [] := by
  simp [readable, range, retrieveAll]

theorem retrieve_valid {b : Buffer} (h : b.Valid) (len : Nat) : (b.retrieve len).Valid := by
  unfold retrieve
  split
  · next hlt =>
    have h₁ := h.prepend_le
    have h₂ := h.reader_le
    have h₃ := h.writer_le
    have h₄ := h.size_le
    rw [h.readableBytes_eq] at hlt
    have hidx : sizeT ((b.readerIndex : Int) + len) = b.readerIndex + len := by
      exact_mod_cast sizeT_of_le_maxSize (by omega)
    rw [hidx]
    exact ⟨by simp only; omega, by simp only; omega, h₃, h₄⟩
  · exact retrieveAll_valid h

/-- `retrieve(len)` dequeues `min(len, readable_bytes())` bytes. -/
theorem retrieve_readable {b : Buffer} (h : b.Valid) (len : Nat) :
    (b.retrieve len).readable = b.readable.drop len := by
  have h₂ := h.reader_le
  have h₃ := h.writer_le
  have h₄ := h.size_le
  unfold retrieve
  split
  · next hlt =>
    rw [h.readableBytes_eq] at hlt
    have hidx : sizeT ((b.readerIndex : Int) + len) = b.readerIndex + len := by
      exact_mod_cast sizeT_of_le_maxSize (by omega)
    simp only [readable, range, hidx]
    rw [List.drop_take, List.drop_drop]
    congr 1
    omega
  · next hge =>
    rw [retrieveAll_readable, List.drop_eq_nil_of_le]
    rw [h.length_readable]
    omega

theorem retrieve_writer {b : Buffer} (h : b.Valid) (len : Nat) :
    (b.retrieve len).writerIndex ≤ b.writerIndex := by
  unfold retrieve
  split
  · exact le_refl _
  · exact le_trans h.prepend_le h.reader_le

theorem retrieveUntil_eq {b : Buffer} (h : b.Valid) {k : Nat} (hk : k ≤ b.readableBytes) :
    b.retrieveUntil (b.peek + k) = b.retrieve k := by
  have h₂ := h.reader_le
  have h₃ := h.writer_le
  have h₄ := h.size_le
  rw [h.readableBytes_eq] at hk
  have hoff : sizeT (((b.peek + k : Nat) : Int) - (b.peek : Nat)) = b.peek + k - b.peek :=
    sizeT_sub (Nat.le_add_right _ _) (by unfold peek maxSize at *; omega)
  rw [Nat.add_sub_cancel_left] at hoff
  rw [retrieveUntil, hoff]

theorem retrieveAsString_eq {b : Buffer} (h : b.Valid) {len : Nat}
    (hlen : len ≤ b.readableBytes) :
    b.retrieveAsString len = .ok (b.retrieve len, b.readable.take len) := by
  rw [retrieveAsString, h.copyFrom_peek hlen]
  rfl

-- ════════════════════════════════════════════════════════════════════════
-- Making room and enqueuing
-- ════════════════════════════════════════════════════════════════════════

/-- Bytes placed right behind the readable part extend it. -/
theorem readable_fill {buf data : List Byte} {r w : Nat} (hr : r ≤ w) (hw : w ≤ buf.length) :
    ((buf.take w ++ data ++ buf.drop (w + data.length)).drop r).take (w + data.length - r) =
      (buf.drop r).take (w - r) ++ data := by
  have hlen : (buf.take w).length = w := by simp [hw]
  rw [List.append_assoc, List.drop_append_of_le_length (by omega), List.drop_take,
    ← List.append_assoc, List.take_append_of_le_length]
  · rw [List.take_of_length_le]
    simp only [List.length_append, List.length_take, List.length_drop]
    omega
  · simp only [List.length_append, List.length_take, List.length_drop]
    omega

/-- Copying into the writable part and moving `writer_index_` enqueues. -/
theorem copyTo_writer {b : Buffer} (h : b.Valid) {data : List Byte}
    (hroom : b.writerIndex + data.length ≤ b.buffer.length) :
    ∃ b', b.copyTo b.writerIndex data = .ok b' ∧ b'.writerIndex = b.writerIndex ∧
      b'.buffer.length = b.buffer.length ∧
      (∀ w, w = b.writerIndex + data.length →
        ({ b' with writerIndex := w } : Buffer).Valid ∧
        ({ b' with writerIndex := w } : Buffer).readable = b.readable ++ data) := by
  have h₁ := h.prepend_le
  have h₂ := h.reader_le
  have h₃ := h.writer_le
  have h₄ := h.size_le
  have hlen : (b.buffer.take b.writerIndex ++ data ++
      b.buffer.drop (b.writerIndex + data.length)).length = b.buffer.length := by
    simp only [List.length_append, List.length_take, List.length_drop]
    omega
  refine ⟨_, if_pos hroom, rfl, hlen, ?_⟩
  rintro w rfl
  refine ⟨⟨h₁, by simp only; omega, by simp only; omega, by simp only; omega⟩, ?_⟩
  exact readable_fill h₂ h₃

theorem resize_grow {b : Buffer} (h : b.Valid) {n : Nat} (hn : b.buffer.length ≤ n) :
    ReturnsUnless (maxSize < n) (b.resize n) fun b' =>
      b'.Valid ∧ b'.readable = b.readable ∧ b'.writerIndex = b.writerIndex ∧
        b'.buffer.length = n := by
  have h₂ := h.reader_le
  have h₃ := h.writer_le
  unfold resize
  split
  · next hmax =>
    have hlen : (b.buffer.take n ++ List.replicate (n - b.buffer.length) 0).length = n := by
      simp only [List.length_append, List.length_take, List.length_replicate]
      omega
    refine .of_ok ⟨⟨h.prepend_le, h₂, by simp only; omega, by simp only; omega⟩, ?_, rfl, hlen⟩
    simp only [readable, range]
    rw [List.take_of_length_le hn, List.drop_append_of_le_length (by omega),
      List.take_append_of_le_length]
    simp only [List.length_drop]
    omega
  · next hmax => exact Or.inr ⟨rfl, by omega⟩

/-- Compaction is called with free space before the readable part: the copy
    never starts inside its own source. -/
theorem compact_spec {b : Buffer} (h : b.Valid) (hfree : kCheapPrepend < b.readerIndex) :
    ∃ b', b.compact = .ok b' ∧ b'.Valid ∧ b'.readable = b.readable ∧
      b'.buffer.length = b.buffer.length ∧
      b'.writerIndex = kCheapPrepend + (b.writerIndex - b.readerIndex) := by
  have h₂ := h.reader_le
  have h₃ := h.writer_le
  have h₄ := h.size_le
  have hcopy : b.copyFrom b.readerIndex b.readableBytes = .ok b.readable := by
    have hall := h.copyFrom_peek (le_refl b.readableBytes)
    rwa [List.take_of_length_le (Nat.le_of_eq h.length_readable)] at hall
  have hdata : b.readable.length = b.writerIndex - b.readerIndex := by
    rw [h.length_readable, h.readableBytes_eq]
  have hto : b.copyTo kCheapPrepend b.readable = .ok { b with
      buffer := b.buffer.take kCheapPrepend ++ b.readable ++
        b.buffer.drop (kCheapPrepend + b.readable.length) } := if_pos (by omega)
  have hw : sizeT ((kCheapPrepend : Int) + b.readableBytes) =
      kCheapPrepend + (b.writerIndex - b.readerIndex) := by
    rw [h.readableBytes_eq]
    exact_mod_cast sizeT_of_le_maxSize (by omega)
  have hlen : (b.buffer.take kCheapPrepend ++ b.readable ++
      b.buffer.drop (kCheapPrepend + b.readable.length)).length = b.buffer.length := by
    simp only [List.length_append, List.length_take, List.length_drop]
    omega
  have hpre : kCheapPrepend ≤ b.buffer.length := by omega
  refine ⟨{ b with
      buffer := b.buffer.take kCheapPrepend ++ b.readable ++
        b.buffer.drop (kCheapPrepend + b.readable.length),
      readerIndex := kCheapPrepend,
      writerIndex := kCheapPrepend + (b.writerIndex - b.readerIndex) }, ?_, ?_, ?_, hlen, rfl⟩
  · simp only [compact, hcopy, hto, hw, bind, Except.bind, pure, Except.pure]
    rw [if_neg (by omega)]
  · exact ⟨le_rfl, by simp only; omega, by simp only; omega, by simp only; omega⟩
  · have hfill := @readable_fill _ b.readable _ _ (le_refl kCheapPrepend) hpre
    rw [Nat.sub_self, List.take_zero, List.nil_append, hdata] at hfill
    rw [hdata]
    exact hfill

/-- `ensure_writable_bytes(len)` for a length an `int` can carry. -/
theorem ensureWritableBytes_spec {b : Buffer} (h : b.Valid) {len : Nat} (hlen : len < 2 ^ 31) :
    ReturnsUnless (maxSize < b.writerIndex + len) (b.ensureWritableBytes len) fun b' =>
      b'.Valid ∧ b'.readable = b.readable ∧ b'.writerIndex ≤ b.writerIndex ∧
        b'.writerIndex + len ≤ b'.buffer.length := by
  have h₁ := h.prepend_le
  have h₂ := h.reader_le
  have h₃ := h.writer_le
  have h₄ := h.size_le
  have hmax : maxSize < 2 ^ 63 := by decide
  unfold ensureWritableBytes
  split
  · next hshort =>
    rw [h.writableBytes_eq] at hshort
    rw [toInt_of_lt hlen, makeSpace, h.writableBytes_eq, prependableBytes]
    have hfree : sizeT (((b.buffer.length - b.writerIndex : Nat) : Int) + b.readerIndex) =
        b.buffer.length - b.writerIndex + b.readerIndex := by
      exact_mod_cast sizeT_of_lt (by omega)
    have hneed : sizeT ((len : Int) + kCheapPrepend) = len + kCheapPrepend := by
      exact_mod_cast sizeT_of_lt (by unfold kCheapPrepend; omega)
    have hnew : sizeT ((b.writerIndex : Int) + len) = b.writerIndex + len := by
      exact_mod_cast sizeT_of_lt (by omega)
    rw [hfree, hneed, hnew]
    split
    · -- the whole vector is too small
      refine (resize_grow h (by omega)).imp id ?_
      rintro b' ⟨hv, hr, hw, hl⟩
      exact ⟨hv, hr, by omega, by omega⟩
    · -- the prependable part makes up for it
      next hfits =>
      obtain ⟨b', hok, hv, hr, hl, hw⟩ := compact_spec h (by omega)
      rw [hok]
      exact .of_ok ⟨hv, hr, by omega, by omega⟩
  · next hroom =>
    rw [h.writableBytes_eq] at hroom
    exact .of_ok ⟨h, rfl, le_rfl, by omega⟩

/-- `append(data, len)` enqueues, for a length an `int` can carry. -/
theorem append_spec {b : Buffer} (h : b.Valid) {data : List Byte} (hlen : data.length < 2 ^ 31) :
    ReturnsUnless (maxSize < b.writerIndex + data.length) (b.append data) fun b' =>
      b'.Valid ∧ b'.readable = b.readable ++ data ∧
        b'.writerIndex ≤ b.writerIndex + data.length := by
  refine (ensureWritableBytes_spec h hlen).bind ?_
  rintro c ⟨hv, hr, hwriter, hroom⟩
  obtain ⟨c', hok, hw, hl, hfill⟩ := copyTo_writer hv hroom
  have hidx : sizeT ((c'.writerIndex : Int) + data.length) = c.writerIndex + data.length := by
    have hsize := hv.size_le
    rw [hw]
    exact_mod_cast sizeT_of_le_maxSize (by omega)
  obtain ⟨hv', hr'⟩ := hfill _ hidx
  simp only [beginWrite, hok, bind, Except.bind, pure, Except.pure]
  refine .of_ok ⟨hv', by rw [hr', hr], ?_⟩
  change sizeT ((c'.writerIndex : Int) + data.length) ≤ _
  omega

/-- `append` while the vector can hold the bytes. -/
theorem append_ok {b : Buffer} (h : b.Valid) (data : List Byte) (hlen : data.length < 2 ^ 31)
    (hfit : b.writerIndex + data.length ≤ maxSize) :
    ∃ b', b.append data = .ok b' ∧ b'.Valid ∧ b'.readable = b.readable ++ data ∧
      b'.writerIndex ≤ b.writerIndex + data.length := by
  rcases append_spec h hlen with hok | ⟨_, hfull⟩
  · exact hok
  · exact absurd hfit (Nat.not_le.mpr hfull)

/-- One `append` after the other. -/
theorem foldlM_append_ok {b : Buffer} (h : b.Valid) {datas : List (List Byte)}
    (hlen : ∀ data ∈ datas, data.length < 2 ^ 31)
    (hfit : b.writerIndex + datas.flatten.length ≤ maxSize) :
    ∃ b', datas.foldlM append b = .ok b' ∧ b'.readable = b.readable ++ datas.flatten := by
  induction datas generalizing b with
  | nil => exact ⟨b, rfl, (List.append_nil _).symm⟩
  | cons data datas ih =>
    rw [List.flatten_cons, List.length_append] at hfit
    obtain ⟨b₁, happ, hv₁, hr₁, hw₁⟩ :=
      append_ok h data (hlen data List.mem_cons_self) (by omega)
    obtain ⟨b₂, hrun, hr₂⟩ :=
      ih hv₁ (fun d hd => hlen d (List.mem_cons_of_mem data hd)) (by omega)
    refine ⟨b₂, ?_, ?_⟩
    · rw [List.foldlM_cons, happ]
      exact hrun
    · rw [hr₂, hr₁, List.flatten_cons, List.append_assoc]

theorem toInt_lt (n : Nat) : -(2 ^ 31) ≤ toInt n ∧ toInt n < 2 ^ 31 := by
  unfold toInt
  split <;> omega

/-- Without free space before the readable bytes, moving them to the front fails or
    changes nothing. -/
theorem compact_tight {b : Buffer} (h : b.Valid) (hreader : b.readerIndex = kCheapPrepend) :
    (∃ f, b.compact = .error f) ∨ b.compact = .ok b := by
  have hr := h.reader_le
  have hw := h.writer_le
  have hrd := h.readableBytes_eq
  have hcopy := h.copyFrom_peek (le_refl _)
  rw [peek] at hcopy
  by_cases hempty : b.readableBytes = 0
  · right
    have hnil : b.readable = [] := List.length_eq_zero_iff.mp (h.length_readable.trans hempty)
    have hto : b.copyTo kCheapPrepend [] = .ok b := by
      rw [copyTo, List.length_nil, if_pos (by omega), Nat.add_zero, List.append_nil,
        List.take_append_drop]
    have hwriter : b.writerIndex = kCheapPrepend := by omega
    have hsame : ({ b with readerIndex := kCheapPrepend, writerIndex := kCheapPrepend } : Buffer) =
        b := by
      rw [← hwriter]
      nth_rewrite 1 [hwriter]
      rw [← hreader]
    rw [compact, hcopy]
    simp only [bind, Except.bind, hempty, hnil, List.take_nil, Nat.add_zero]
    rw [if_neg (by omega), hto]
    exact congrArg Except.ok hsame
  · left
    refine ⟨.badCopy, ?_⟩
    rw [compact, hcopy]
    simp only [bind, Except.bind]
    rw [if_pos (by omega)]
    rfl

/-- Whatever length `make_space` is told: the readable bytes are kept if it makes
    the room that was asked for. -/
theorem ensureWritableBytes_keeps {b c : Buffer} (h : b.Valid) {len : Nat}
    (hc : b.ensureWritableBytes len = .ok c) (hroom : c.writerIndex + len ≤ c.buffer.length) :
    c.Valid ∧ c.readable = b.readable := by
  have hw := h.writer_le
  have hwr := h.writableBytes_eq
  rw [ensureWritableBytes] at hc
  split at hc
  · rw [makeSpace] at hc
    split at hc
    · have hgrow : b.buffer.length ≤ sizeT (b.writerIndex + toInt len) := by
        rw [resize] at hc
        split at hc
        · cases hc
          simp only [List.length_append, List.length_take, List.length_replicate] at hroom
          omega
        · cases hc
      obtain ⟨hv, hr, _⟩ := (resize_grow h hgrow).of_eq_ok hc
      exact ⟨hv, hr⟩
    · by_cases hfree : kCheapPrepend < b.readerIndex
      · obtain ⟨c', hok, hv, hr, _⟩ := compact_spec h hfree
        cases hok.symm.trans hc
        exact ⟨hv, hr⟩
      · have hprepend := h.prepend_le
        rcases compact_tight h (by omega) with ⟨f, hf⟩ | hok
        · cases hf.symm.trans hc
        · cases hok.symm.trans hc
          exact ⟨h, rfl⟩
  · cases hc
    exact ⟨h, rfl⟩

/-- An `append` that returns: `ensure_writable_bytes` has made the room. -/
theorem append_eq_ok {b b' : Buffer} {data : List Byte} (happ : b.append data = .ok b') :
    ∃ c, b.ensureWritableBytes data.length = .ok c ∧
      c.writerIndex + data.length ≤ c.buffer.length ∧
      b' = { c with
        buffer := c.buffer.take c.writerIndex ++ data ++ c.buffer.drop (c.writerIndex + data.length)
        writerIndex := sizeT (c.writerIndex + data.length) } := by
  obtain ⟨c, hens, hcopy⟩ := bind_eq_ok happ
  obtain ⟨c', hto, hend⟩ := bind_eq_ok hcopy
  rw [copyTo] at hto
  split at hto
  · rename_i hroom
    cases hto
    cases hend
    exact ⟨c, hens, hroom, rfl⟩
  · cases hto

/-- An `append` of any length that returns has enqueued the bytes. -/
theorem append_intact {b b' : Buffer} (h : b.Valid) {data : List Byte}
    (happ : b.append data = .ok b') : b'.Valid ∧ b'.readable = b.readable ++ data := by
  obtain ⟨c, hens, hroom, rfl⟩ := append_eq_ok happ
  obtain ⟨hv, hr⟩ := ensureWritableBytes_keeps h hens hroom
  obtain ⟨c', hok, hw, _, hfill⟩ := copyTo_writer hv hroom
  have hsize := hv.size_le
  have hidx : sizeT ((c.writerIndex : Int) + data.length) = c.writerIndex + data.length := by
    exact_mod_cast sizeT_of_le_maxSize (by omega)
  rw [copyTo, if_pos hroom] at hok
  cases hok
  rw [← hr]
  exact hfill _ hidx

/-- Nothing has been read and little can still be written: `make_space` can only
    grow such a buffer, and by no more than an `int` can tell it to. -/
structure Tight (b : Buffer) : Prop extends b.Valid where
  reader_eq : b.readerIndex = kCheapPrepend
  room_lt : b.writableBytes < 2 ^ 31

theorem fresh_tight : (new kInitialSize).Tight where
  toValid := fresh_valid
  reader_eq := rfl
  room_lt := by
    have hsize : (new kInitialSize).buffer.length = 1032 := by
      rw [new, List.length_replicate]
      decide
    rw [fresh_valid.writableBytes_eq, fresh_writer, hsize]
    decide

/-- From `2^31` bytes on, `append` to a tight buffer has no way to make room:
    `make_space` sees another length, and it throws or the copy leaves the vector. -/
theorem append_overlong {b : Buffer} (htight : b.Tight)
    {data : List Byte} (hlen : 2 ^ 31 ≤ data.length) :
    ∃ f, b.append data = .error f := by
  have h := htight.toValid
  have hreader := htight.reader_eq
  have hroom := htight.room_lt
  have hr := h.reader_le
  have hw := h.writer_le
  have hs := h.size_le
  obtain ⟨hlo, hhi⟩ := toInt_lt data.length
  have hwr := h.writableBytes_eq
  have hrd := h.readableBytes_eq
  unfold maxSize at hs
  -- what the copy needs after `make_space`
  have hcopy : ∀ c : Buffer, c.buffer.length < c.writerIndex + data.length →
      ∃ f, (do
        let c ← c.copyTo c.beginWrite data
        return ({ c with writerIndex := sizeT (c.writerIndex + data.length) } : Buffer)) =
          .error f := by
    intro c hc
    refine ⟨.badCopy, ?_⟩
    rw [copyTo, beginWrite, if_neg (by omega)]
    rfl
  rw [append, ensureWritableBytes, if_pos (by omega), makeSpace]
  split
  · rw [resize]
    split
    · rename_i hmax
      unfold maxSize at hmax
      apply hcopy
      have hneg : sizeT ((b.writerIndex : Int) + toInt data.length) < b.writerIndex + data.length := by
        unfold sizeT at hmax ⊢
        omega
      simp only [List.length_append, List.length_take, List.length_replicate]
      omega
    · exact ⟨_, rfl⟩
  · rcases compact_tight h hreader with ⟨f, hf⟩ | hok
    · exact ⟨f, by rw [hf]; rfl⟩
    · rw [hok]
      apply hcopy
      omega

/-- The room that `ensure_writable_bytes` makes in a tight buffer. -/
theorem ensureWritableBytes_tight {b c : Buffer} (h : b.Tight) {len : Nat} (hlen : len < 2 ^ 31)
    (hc : b.ensureWritableBytes len = .ok c) :
    c.readerIndex = kCheapPrepend ∧ c.buffer.length < c.writerIndex + 2 ^ 31 := by
  have hreader := h.reader_eq
  have hroom := h.room_lt
  have hw := h.writer_le
  have hs := h.size_le
  have hmax : maxSize < 2 ^ 63 := by decide
  have hwr := h.toValid.writableBytes_eq
  rw [ensureWritableBytes] at hc
  split at hc
  · have hfree : sizeT ((b.writableBytes : Int) + b.prependableBytes) =
        b.writableBytes + b.prependableBytes := by
      rw [prependableBytes, hreader]
      exact_mod_cast sizeT_of_lt (by unfold kCheapPrepend; omega)
    have hneed : sizeT ((len : Int) + kCheapPrepend) = len + kCheapPrepend := by
      exact_mod_cast sizeT_of_lt (by unfold kCheapPrepend; omega)
    have hnew : sizeT ((b.writerIndex : Int) + len) = b.writerIndex + len := by
      exact_mod_cast sizeT_of_lt (by omega)
    rw [toInt_of_lt hlen, makeSpace, hfree, hneed, hnew,
      if_pos (by unfold prependableBytes; omega), resize] at hc
    split at hc
    · cases hc
      refine ⟨hreader, ?_⟩
      simp only [List.length_append, List.length_take, List.length_replicate]
      omega
    · cases hc
  · cases hc
    exact ⟨hreader, by omega⟩

/-- A shorter `append` keeps the buffer tight. -/
theorem append_tight {b b' : Buffer} (h : b.Tight) {data : List Byte} (hlen : data.length < 2 ^ 31)
    (happ : b.append data = .ok b') : b'.Tight := by
  have hv' := (append_intact h.toValid happ).1
  obtain ⟨c, hens, hroom, rfl⟩ := append_eq_ok happ
  obtain ⟨hcr, hcl⟩ := ensureWritableBytes_tight h hlen hens
  have hsize := (ensureWritableBytes_keeps h.toValid hens hroom).1.size_le
  have hidx : sizeT ((c.writerIndex : Int) + data.length) = c.writerIndex + data.length := by
    exact_mod_cast sizeT_of_le_maxSize (by omega)
  refine ⟨hv', hcr, ?_⟩
  rw [hv'.writableBytes_eq]
  simp only [hidx, List.length_append, List.length_take, List.length_drop]
  omega

/-- Among several pieces one that is too long is enough. -/
theorem foldlM_append_overlong {b : Buffer} (h : b.Tight) {datas : List (List Byte)}
    (hlong : ∃ data ∈ datas, 2 ^ 31 ≤ data.length) : ∃ f, datas.foldlM append b = .error f := by
  induction datas generalizing b with
  | nil =>
    obtain ⟨data, hmem, _⟩ := hlong
    cases hmem
  | cons data datas ih =>
    rw [List.foldlM_cons]
    by_cases hdata : data.length < 2 ^ 31
    · cases happ : b.append data with
      | error f => exact ⟨f, rfl⟩
      | ok b' =>
        apply ih (append_tight h hdata happ)
        obtain ⟨long, hmem, hlen⟩ := hlong
        rcases List.mem_cons.mp hmem with rfl | hmem
        · omega
        · exact ⟨long, hmem, hlen⟩
    · obtain ⟨f, hf⟩ := append_overlong h (Nat.not_lt.mp hdata)
      exact ⟨f, by rw [hf]; rfl⟩

/-- `read_fd` enqueues exactly the bytes the kernel delivered, across both
    iovecs. -/
theorem readFd_delivered {b : Buffer} (h : b.Valid) {data : List Byte}
    (hn : data.length ≤ b.iovecLength) :
    ReturnsUnless (maxSize < b.writerIndex + data.length) (b.readFd (.delivered data)) fun r =>
      r.1.Valid ∧ r.1.readable = b.readable ++ data ∧ r.2 = ((data.length : Int), none) := by
  have h₃ := h.writer_le
  have h₄ := h.size_le
  have hwr := h.writableBytes_eq
  have hroom : b.writerIndex + (data.take b.writableBytes).length ≤ b.buffer.length := by
    rw [List.length_take]
    omega
  obtain ⟨c, hok, hw, hl, hfill⟩ := copyTo_writer h hroom
  simp only [readFd, hok, bind, Except.bind]
  split
  · -- everything went into the vector
    next hfit =>
    have hidx : sizeT ((c.writerIndex : Int) + data.length) =
        b.writerIndex + (data.take b.writableBytes).length := by
      rw [hw, List.take_of_length_le hfit]
      exact_mod_cast sizeT_of_le_maxSize (by omega)
    obtain ⟨hv', hr'⟩ := hfill _ hidx
    refine .of_ok ⟨hv', ?_, rfl⟩
    rw [hr', List.take_of_length_le hfit]
  · -- the vector is full and the rest of the bytes is in `extrabuf`
    next hover =>
    obtain ⟨hv', hr'⟩ := hfill c.buffer.length (by
      rw [hl, List.length_take]
      omega)
    have hrest : (data.drop b.writableBytes).length < 2 ^ 31 := by
      rw [List.length_drop]
      unfold iovecLength extrabufSize at hn
      split at hn <;> omega
    have happ := append_spec hv' hrest
    refine ReturnsUnless.bind (happ.imp ?_ fun _ hp => hp) ?_
    · intro hfull
      simp only [List.length_drop] at hfull
      omega
    · rintro d ⟨hv'', hr'', _⟩
      refine .of_ok ⟨hv'', ?_, rfl⟩
      rw [hr'', hr', List.append_assoc, List.take_append_drop]

-- ════════════════════════════════════════════════════════════════════════
-- Sequences of operations
-- ════════════════════════════════════════════════════════════════════════

/-- A call on a buffer. `retrieveUntil k` passes the pointer `peek() + k`. -/
inductive Op where
  | append (data : List Byte)
  | retrieve (len : Nat)
  | retrieveUntil (k : Nat)
  | retrieveAll
  | retrieveAsString (len : Nat)
  | retrieveAllAsString
  | ensureWritableBytes (len : Nat)
  | readFd (r : ReadvResult)
  deriving DecidableEq, Repr

/-- What the caller and the kernel owe the call: a length an `int` can carry, a
    pointer into the readable part, a read no longer than the iovecs. -/
def Op.Pre (b : Buffer) : Op → Prop
  | .append data => data.length ≤ 2 ^ 31 - 1
  | .retrieveUntil k => k ≤ b.readableBytes
  | .retrieveAsString len => len ≤ b.readableBytes
  | .ensureWritableBytes len => len ≤ 2 ^ 31 - 1
  | .readFd (.delivered data) => data.length ≤ b.iovecLength
  | .retrieve _ | .retrieveAll | .retrieveAllAsString | .readFd (.error _) => True

instance (b : Buffer) : (op : Op) → Decidable (op.Pre b)
  | .append data => inferInstanceAs (Decidable (data.length ≤ 2 ^ 31 - 1))
  | .retrieveUntil k => inferInstanceAs (Decidable (k ≤ b.readableBytes))
  | .retrieveAsString len => inferInstanceAs (Decidable (len ≤ b.readableBytes))
  | .ensureWritableBytes len => inferInstanceAs (Decidable (len ≤ 2 ^ 31 - 1))
  | .readFd (.delivered data) => inferInstanceAs (Decidable (data.length ≤ b.iovecLength))
  | .retrieve _ | .retrieveAll | .retrieveAllAsString | .readFd (.error _) => .isTrue trivial

/-- The bytes the call needs behind `writer_index_`. -/
def Op.demand : Op → Nat
  | .append data | .readFd (.delivered data) => data.length
  | .ensureWritableBytes len => len
  | _ => 0

/-- One call: the buffer afterwards and the string handed back, empty where the
    call returns none. -/
def apply (b : Buffer) : Op → Except Fault (Buffer × List Byte)
  | .append data => return (← b.append data, [])
  | .retrieve len => return (b.retrieve len, [])
  | .retrieveUntil k => return (b.retrieveUntil (b.peek + k), [])
  | .retrieveAll => return (b.retrieveAll, [])
  | .retrieveAsString len => b.retrieveAsString len
  | .retrieveAllAsString => b.retrieveAllAsString
  | .ensureWritableBytes len => return (← b.ensureWritableBytes len, [])
  | .readFd r => return ((← b.readFd r).1, [])

/-- The calls on one buffer, from its construction on. -/
def system : Transition.System Buffer (Op × List Byte) where
  init b := ∃ n, kCheapPrepend + n ≤ maxSize ∧ b = new n
  step b l b' := l.1.Pre b ∧ b.apply l.1 = .ok (b', l.2)

end Buffer

namespace ByteQueue

/-- What the buffer is for: a queue of bytes, the oldest first. -/
def apply (q : List Byte) : Buffer.Op → List Byte × List Byte
  | .append data | .readFd (.delivered data) => (q ++ data, [])
  | .retrieve len | .retrieveUntil len => (q.drop (min len q.length), [])
  | .retrieveAll => ([], [])
  | .retrieveAsString len => (q.drop len, q.take len)
  | .retrieveAllAsString => ([], q)
  | .ensureWritableBytes _ | .readFd (.error _) => (q, [])

def system : Transition.System (List Byte) (Buffer.Op × List Byte) where
  init q := q = []
  step q l q' := apply q l.1 = (q', l.2)

end ByteQueue

namespace Buffer

theorem drop_min_length {α : Type} (q : List α) (len : Nat) :
    q.drop (min len q.length) = q.drop len := by
  rcases Nat.le_total len q.length with h | h
  · rw [Nat.min_eq_left h]
  · rw [Nat.min_eq_right h, List.drop_length, List.drop_eq_nil_of_le h]

/-- On a valid buffer one call is one operation of the queue, and it returns
    unless the vector would have to outgrow `max_size()`. -/
theorem apply_spec {b : Buffer} (h : b.Valid) {op : Op} (hpre : op.Pre b) :
    ReturnsUnless (maxSize < b.writerIndex + op.demand) (b.apply op) fun r =>
      r.1.Valid ∧ ByteQueue.apply b.readable op = (r.1.readable, r.2) := by
  have h31 : (2 : Nat) ^ 31 - 1 < 2 ^ 31 := by decide
  cases op with
  | append data =>
    refine (append_spec h (Nat.lt_of_le_of_lt hpre h31)).bind ?_
    rintro c ⟨hv, hr, _⟩
    exact .of_ok ⟨hv, by rw [hr]; rfl⟩
  | retrieve len =>
    refine .of_ok ⟨retrieve_valid h len, ?_⟩
    rw [retrieve_readable h, ByteQueue.apply, drop_min_length]
  | retrieveUntil k =>
    have hk : k ≤ b.readableBytes := hpre
    refine .of_ok ⟨?_, ?_⟩
    · rw [retrieveUntil_eq h hk]
      exact retrieve_valid h k
    · rw [retrieveUntil_eq h hk, retrieve_readable h, ByteQueue.apply, drop_min_length]
  | retrieveAll =>
    exact .of_ok ⟨retrieveAll_valid h, by rw [retrieveAll_readable]; rfl⟩
  | retrieveAsString len =>
    have hlen : len ≤ b.readableBytes := hpre
    rw [apply, retrieveAsString_eq h hlen]
    exact .of_ok ⟨retrieve_valid h len, by rw [retrieve_readable h]; rfl⟩
  | retrieveAllAsString =>
    rw [apply, retrieveAllAsString, retrieveAsString_eq h le_rfl]
    refine .of_ok ⟨retrieve_valid h _, ?_⟩
    rw [retrieve_readable h, ← h.length_readable, List.drop_length, List.take_length]
    rfl
  | ensureWritableBytes len =>
    refine (ensureWritableBytes_spec h (Nat.lt_of_le_of_lt hpre h31)).bind ?_
    rintro c ⟨hv, hr, _, _⟩
    exact .of_ok ⟨hv, by rw [hr]; rfl⟩
  | readFd r =>
    cases r with
    | error e => exact .of_ok ⟨h, rfl⟩
    | delivered data =>
      refine (readFd_delivered h hpre).bind ?_
      rintro ⟨c, n⟩ ⟨hv, hr, _⟩
      exact .of_ok ⟨hv, by rw [hr]; rfl⟩

/-- Call by call, the queue of the readable bytes follows the buffer. -/
theorem simulates_byteQueue :
    Transition.Simulation system ByteQueue.system fun b q => b.Valid ∧ b.readable = q where
  init := by
    rintro b ⟨n, hn, rfl⟩
    exact ⟨[], rfl, new_valid hn, new_readable n⟩
  step := by
    rintro b q ⟨op, out⟩ b' ⟨hv, rfl⟩ ⟨hpre, hok⟩
    obtain ⟨hv', hq⟩ := (apply_spec hv hpre).of_eq_ok hok
    exact ⟨b'.readable, hq, hv', rfl⟩

/-- **The buffer is a byte queue.** After any sequence of calls on a buffer of
    any initial size, the layout holds, the strings handed back and the readable
    bytes are those of a byte queue under the same calls, and the next call
    stays inside the vector: it returns, with the layout and the queue's answer,
    or `resize` refuses to outgrow `max_size()`. -/
theorem run_refines_byteQueue {n : Nat} (hn : kCheapPrepend + n ≤ maxSize)
    {tr : List (Op × List Byte)} {b : Buffer} (h : system.Run (new n) tr b) :
    ByteQueue.system.Run [] tr b.readable ∧
      (kCheapPrepend ≤ b.readerIndex ∧ b.readerIndex ≤ b.writerIndex ∧
        b.writerIndex ≤ b.buffer.length) ∧
      ∀ op, op.Pre b →
        ReturnsUnless (maxSize < b.writerIndex + op.demand) (b.apply op) fun r =>
          r.1.Valid ∧ ByteQueue.apply b.readable op = (r.1.readable, r.2) := by
  obtain ⟨q, hq, hv, rfl⟩ := simulates_byteQueue.run ⟨new_valid hn, new_readable n⟩ h
  exact ⟨hq, ⟨hv.prepend_le, hv.reader_le, hv.writer_le⟩, fun op hpre => apply_spec hv hpre⟩

/-- A buffer of two bytes takes three (growing), gives back two, and takes two
    more (moving the third to the front). -/
def sampleCalls : List (Op × List Byte) :=
  [(.append [1, 2, 3], []), (.retrieveAsString 2, [1, 2]), (.append [4, 5], [])]

theorem run_refines_byteQueue_sample :
    ∃ b, system.Run (new 2) sampleCalls b ∧ b.readable = [3, 4, 5] ∧
      ByteQueue.system.Run [] sampleCalls b.readable := by
  have h₁ : system.step (new 2) (.append [1, 2, 3], [])
      ⟨[0, 0, 0, 0, 0, 0, 0, 0, 1, 2, 3], 8, 11⟩ := ⟨by decide, rfl⟩
  have h₂ : system.step ⟨[0, 0, 0, 0, 0, 0, 0, 0, 1, 2, 3], 8, 11⟩ (.retrieveAsString 2, [1, 2])
      ⟨[0, 0, 0, 0, 0, 0, 0, 0, 1, 2, 3], 10, 11⟩ := ⟨by decide, rfl⟩
  have h₃ : system.step ⟨[0, 0, 0, 0, 0, 0, 0, 0, 1, 2, 3], 10, 11⟩ (.append [4, 5], [])
      ⟨[0, 0, 0, 0, 0, 0, 0, 0, 3, 4, 5], 8, 11⟩ := ⟨by decide, rfl⟩
  have hrun : system.Run (new 2) sampleCalls ⟨[0, 0, 0, 0, 0, 0, 0, 0, 3, 4, 5], 8, 11⟩ :=
    .snoc (.snoc (.snoc .nil h₁) h₂) h₃
  exact ⟨_, hrun, rfl, (run_refines_byteQueue (by decide) hrun).1⟩

end Buffer

end DamnWebServer
