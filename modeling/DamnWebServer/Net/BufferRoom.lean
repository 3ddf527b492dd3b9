import DamnWebServer.Net.BufferQueue

/-!
# Reserving space in the buffer

`ensure_writable_bytes` takes a `size_t` and passes it to `make_space`, which takes
an `int`. A length from `2^31` on arrives there as another number, and whether
enough room is made depends on what is left of it: a negative one makes the sum with
`k_cheap_prepend` wrap, and `resize` then throws or cuts the vector below
`writer_index_`.
-/

namespace DamnWebServer

namespace Buffer

/-- The length reaches `make_space` unchanged, or there is room already, or moving
    the readable bytes to the front makes enough of it and `make_space` decides to. -/
def Fits (b : Buffer) (len : Nat) : Prop :=
  len < 2 ^ 31 ∨ len ≤ b.writableBytes ∨
    -(kCheapPrepend : Int) ≤ toInt len ∧ len + kCheapPrepend ≤ b.writableBytes + b.readerIndex

instance (b : Buffer) (len : Nat) : Decidable (b.Fits len) :=
  inferInstanceAs (Decidable (_ ∨ _ ∨ _))

variable {b c : Buffer} {len : Nat}

/-- The two numbers that `make_space` compares. -/
theorem free_eq (h : b.Valid) :
    sizeT ((b.writableBytes : Int) + b.prependableBytes) = b.writableBytes + b.readerIndex := by
  have hr := h.reader_le
  have hw := h.writer_le
  have hs := h.size_le
  have hmax : maxSize < 2 ^ 63 := by decide
  rw [h.writableBytes_eq, prependableBytes]
  exact_mod_cast sizeT_of_lt (by omega)

/-- **Enough room.** Under the condition, the request is met and nothing is lost. -/
theorem ensureWritableBytes_fits (h : b.Valid) (hlen : b.Fits len) :
    ReturnsUnless (maxSize < b.writerIndex + len) (b.ensureWritableBytes len) fun c =>
      c.Valid ∧ c.readable = b.readable ∧ c.writerIndex + len ≤ c.buffer.length := by
  have hw := h.writer_le
  have hwr := h.writableBytes_eq
  by_cases hroom : b.writableBytes < len
  · rcases hlen with hlen | hlen | ⟨hneg, hlen⟩
    · refine (ensureWritableBytes_spec h hlen).imp id ?_
      rintro c ⟨hv, hr, _, hroom⟩
      exact ⟨hv, hr, hroom⟩
    · exact absurd hlen (Nat.not_le.mpr hroom)
    · -- what arrives at `make_space` is at most `len`
      have hneed : sizeT (toInt len + kCheapPrepend) ≤ len + kCheapPrepend := by
        have hle : toInt len ≤ len := by
          unfold toInt
          split <;> omega
        unfold sizeT
        omega
      have hreader := h.reader_le
      obtain ⟨c, hok, hv, hr, hl, hwriter⟩ := compact_spec h (by omega)
      rw [ensureWritableBytes, if_pos hroom, makeSpace, free_eq h, if_neg (by omega), hok]
      exact .of_ok ⟨hv, hr, by omega⟩
  · rw [ensureWritableBytes, if_neg hroom]
    exact .of_ok ⟨h, rfl, by omega⟩

/-- The same while the vector can hold the bytes. -/
theorem ensureWritableBytes_ok (h : b.Valid) (hlen : b.Fits len)
    (hfit : b.writerIndex + len ≤ maxSize) :
    ∃ c, b.ensureWritableBytes len = .ok c ∧ c.Valid ∧ c.readable = b.readable ∧
      c.writerIndex + len ≤ c.buffer.length := by
  rcases ensureWritableBytes_fits h hlen with hok | ⟨_, hfull⟩
  · exact hok
  · exact absurd hfit (Nat.not_le.mpr hfull)

/-- **Too little room.** Without the condition the room is not made; the layout is
    kept, or the vector now ends before `writer_index_`. -/
theorem ensureWritableBytes_short (h : b.Valid) (hlen : ¬b.Fits len)
    (hc : b.ensureWritableBytes len = .ok c) :
    c.buffer.length < c.writerIndex + len ∧
      (c.Valid ∨ c.readerIndex = b.readerIndex ∧ c.writerIndex = b.writerIndex ∧
        c.buffer.length + kCheapPrepend < c.writerIndex) := by
  have hp := h.prepend_le
  have hr := h.reader_le
  have hw := h.writer_le
  have hs := h.size_le
  have hmax : maxSize < 2 ^ 63 := by decide
  have hwr := h.writableBytes_eq
  obtain ⟨hlo, hhi⟩ := toInt_lt len
  obtain ⟨hbig, hroom, hsmall⟩ : ¬len < 2 ^ 31 ∧ ¬len ≤ b.writableBytes ∧
      ¬(-(kCheapPrepend : Int) ≤ toInt len ∧
        len + kCheapPrepend ≤ b.writableBytes + b.readerIndex) := by
    unfold Fits at hlen
    tauto
  rw [ensureWritableBytes, if_pos (Nat.not_le.mp hroom), makeSpace, free_eq h] at hc
  split at hc
  · next hless =>
    -- `resize(writer_index_ + len)` with the length that has arrived
    rw [resize] at hc
    split at hc
    · next hle =>
      have hnew : (sizeT (b.writerIndex + toInt len) : Int) = b.writerIndex + toInt len := by
        unfold sizeT at hle ⊢
        omega
      cases hc
      have hl : (b.buffer.take (sizeT (b.writerIndex + toInt len)) ++
          List.replicate (sizeT (b.writerIndex + toInt len) - b.buffer.length) 0).length =
            sizeT (b.writerIndex + toInt len) := by
        simp only [List.length_append, List.length_take, List.length_replicate]
        omega
      simp only [hl]
      refine ⟨by omega, ?_⟩
      by_cases hcut : b.writerIndex ≤ sizeT (b.writerIndex + toInt len)
      · exact Or.inl ⟨hp, hr, by simp only [hl]; exact hcut, by simp only [hl]; exact hle⟩
      · refine Or.inr ⟨trivial, trivial, ?_⟩
        unfold kCheapPrepend at *
        unfold sizeT at hless
        omega
    · cases hc
  · next hmore =>
    have hneg : -(kCheapPrepend : Int) ≤ toInt len := by
      by_contra hneg
      unfold sizeT kCheapPrepend at hmore
      unfold kCheapPrepend at hneg
      omega
    by_cases hfree : kCheapPrepend < b.readerIndex
    · obtain ⟨c', hok, hv, _, hl, hwriter⟩ := compact_spec h hfree
      cases hok.symm.trans hc
      exact ⟨by omega, Or.inl hv⟩
    · rcases compact_tight h (by omega) with ⟨f, hf⟩ | hok
      · cases hf.symm.trans hc
      · cases hok.symm.trans hc
        exact ⟨by omega, Or.inl h⟩

/-- Between operations, an empty buffer has its indices at the front. -/
structure Settled (b : Buffer) : Prop extends b.Valid where
  front : b.readable = [] → b.readerIndex = kCheapPrepend

theorem Valid.readable_eq_nil (h : b.Valid) : b.readable = [] ↔ b.readerIndex = b.writerIndex := by
  have hr := h.reader_le
  rw [← List.length_eq_zero_iff, h.length_readable, h.readableBytes_eq]
  omega

/-- `ensure_writable_bytes` does what it is for if and only if the condition holds. -/
theorem ensureWritableBytes_iff (h : b.Settled) (hfit : b.writerIndex + len ≤ maxSize) :
    (∃ c, b.ensureWritableBytes len = .ok c ∧ len ≤ c.writableBytes ∧ c.readable = b.readable) ↔
      b.Fits len := by
  constructor
  · rintro ⟨c, hc, hroom, hsame⟩
    by_contra hlen
    obtain ⟨hshort, hv | ⟨hr, hw, hcut⟩⟩ := ensureWritableBytes_short h.toValid hlen hc
    · have hwriter := hv.writer_le
      rw [hv.writableBytes_eq] at hroom
      omega
    · -- the end of the readable bytes has been cut off
      have hreader := h.reader_le
      have hlength := congrArg List.length hsame
      rw [h.length_readable, h.toValid.readableBytes_eq, readable, range, List.length_take,
        List.length_drop] at hlength
      have hempty : b.readerIndex = b.writerIndex := by omega
      have hfront := h.front (h.readable_eq_nil.mpr hempty)
      omega
  · intro hlen
    obtain ⟨c, hc, hv, hr, hroom⟩ := ensureWritableBytes_ok h.toValid hlen hfit
    refine ⟨c, hc, ?_, hr⟩
    rw [hv.writableBytes_eq]
    omega

/-- `append` stays inside the vector if and only if the condition holds. -/
theorem append_ok_iff (h : b.Valid) {data : List Byte}
    (hfit : b.writerIndex + data.length ≤ maxSize) :
    (∃ c, b.append data = .ok c) ↔ b.Fits data.length := by
  constructor
  · rintro ⟨c, happ⟩
    obtain ⟨d, hens, hroom, _⟩ := append_eq_ok happ
    by_contra hlen
    have hshort := (ensureWritableBytes_short h hlen hens).1
    omega
  · intro hlen
    obtain ⟨c, hc, hv, _, hroom⟩ := ensureWritableBytes_ok h hlen hfit
    obtain ⟨d, hd, _⟩ := copyTo_writer hv hroom
    refine ⟨{ d with writerIndex := sizeT (d.writerIndex + data.length) }, ?_⟩
    rw [append, hc]
    change (c.copyTo c.writerIndex data >>= _) = _
    rw [hd]
    rfl

-- ════════════════════════════════════════════════════════════════════════
-- Calls of any length
-- ════════════════════════════════════════════════════════════════════════

/-- What a call has to meet: the condition where it reserves space, and what the
    caller and the kernel owe otherwise. -/
def Op.Roomy (b : Buffer) : Op → Prop
  | .append data => b.Fits data.length
  | .ensureWritableBytes len => b.Fits len
  | op => op.Pre b

instance (b : Buffer) : (op : Op) → Decidable (op.Roomy b)
  | .append data => inferInstanceAs (Decidable (b.Fits data.length))
  | .ensureWritableBytes len => inferInstanceAs (Decidable (b.Fits len))
  | .retrieveUntil k => inferInstanceAs (Decidable ((Op.retrieveUntil k).Pre b))
  | .retrieveAsString len => inferInstanceAs (Decidable ((Op.retrieveAsString len).Pre b))
  | .readFd r => inferInstanceAs (Decidable ((Op.readFd r).Pre b))
  | .retrieve _ | .retrieveAll | .retrieveAllAsString => .isTrue trivial

/-- The calls on one buffer whose reservations meet the condition. -/
def roomSystem : Transition.System Buffer (Op × List Byte) where
  init b := ∃ n, kCheapPrepend + n ≤ maxSize ∧ b = new n
  step b l b' := l.1.Roomy b ∧ b.apply l.1 = .ok (b', l.2)

/-- Making room moves the indices to the front or not at all. -/
theorem ensureWritableBytes_reader (hc : b.ensureWritableBytes len = .ok c) :
    c.readerIndex = b.readerIndex ∨ c.readerIndex = kCheapPrepend := by
  rw [ensureWritableBytes] at hc
  split at hc
  · rw [makeSpace] at hc
    split at hc
    · rw [resize] at hc
      split at hc
      · cases hc
        exact Or.inl rfl
      · cases hc
    · obtain ⟨data, _, hrest⟩ := bind_eq_ok hc
      split at hrest
      · cases hrest
      · obtain ⟨d, _, hend⟩ := bind_eq_ok hrest
        cases hend
        exact Or.inr rfl
  · cases hc
    exact Or.inl rfl

theorem copyTo_reader {dest : Nat} {data : List Byte} (hc : b.copyTo dest data = .ok c) :
    c.readerIndex = b.readerIndex := by
  rw [copyTo] at hc
  split at hc
  · cases hc
    rfl
  · cases hc

theorem append_settled (h : b.Settled) {data : List Byte} (happ : b.append data = .ok c) :
    c.Settled := by
  obtain ⟨hv, hr⟩ := append_intact h.toValid happ
  refine ⟨hv, fun hempty => ?_⟩
  rw [hr, List.append_eq_nil_iff] at hempty
  obtain ⟨d, hens, _, rfl⟩ := append_eq_ok happ
  rcases ensureWritableBytes_reader hens with hreader | hreader
  · exact hreader.trans (h.front hempty.1)
  · exact hreader

theorem ensureWritableBytes_settled (h : b.Settled) (hlen : b.Fits len)
    (hc : b.ensureWritableBytes len = .ok c) : c.Settled := by
  obtain ⟨hv, hr, _⟩ := (ensureWritableBytes_fits h.toValid hlen).of_eq_ok hc
  refine ⟨hv, fun hempty => ?_⟩
  rw [hr] at hempty
  rcases ensureWritableBytes_reader hc with hreader | hreader
  · exact hreader.trans (h.front hempty)
  · exact hreader

theorem retrieve_settled (h : b.Settled) (len : Nat) : (b.retrieve len).Settled := by
  have hv := retrieve_valid h.toValid len
  refine ⟨hv, fun hempty => ?_⟩
  rw [hv.readable_eq_nil] at hempty
  unfold retrieve at hempty ⊢
  split
  · next hlt =>
    -- something is left to read
    have hw := h.writer_le
    have hs := h.size_le
    rw [h.toValid.readableBytes_eq] at hlt
    have hidx : sizeT ((b.readerIndex : Int) + len) = b.readerIndex + len := by
      exact_mod_cast sizeT_of_le_maxSize (by omega)
    rw [if_pos (h.toValid.readableBytes_eq ▸ hlt)] at hempty
    simp only [hidx] at hempty
    omega
  · rfl

theorem readFd_settled (h : b.Settled) {r : ReadvResult} {n : Int} {e : Option Errno}
    (hpre : (Op.readFd r).Pre b) (hc : b.readFd r = .ok (c, n, e)) : c.Settled := by
  cases r with
  | error e =>
    cases hc
    exact h
  | delivered data =>
    obtain ⟨hv, hr, _⟩ := (readFd_delivered h.toValid hpre).of_eq_ok hc
    refine ⟨hv, fun hempty => ?_⟩
    rw [hr, List.append_eq_nil_iff] at hempty
    obtain ⟨hnil, rfl⟩ := hempty
    -- end of file: the indices stay
    obtain ⟨d, hd, hrest⟩ := bind_eq_ok hc
    rw [List.length_nil, if_pos (Nat.zero_le _)] at hrest
    cases hrest
    exact (copyTo_reader hd).trans (h.front hnil)

/-- **A call that meets the condition** leaves a settled buffer. -/
theorem apply_settled (h : b.Settled) {op : Op} (hop : op.Roomy b) {out : List Byte}
    (hc : b.apply op = .ok (c, out)) : c.Settled := by
  cases op with
  | append data =>
    obtain ⟨d, hd, hend⟩ := bind_eq_ok hc
    cases hend
    exact append_settled h hd
  | retrieve len =>
    cases hc
    exact retrieve_settled h len
  | retrieveUntil k =>
    cases hc
    rw [retrieveUntil_eq h.toValid hop]
    exact retrieve_settled h k
  | retrieveAll =>
    cases hc
    exact ⟨retrieveAll_valid h.toValid, fun _ => rfl⟩
  | retrieveAsString len =>
    obtain ⟨d, _, hend⟩ := bind_eq_ok hc
    cases hend
    exact retrieve_settled h len
  | retrieveAllAsString =>
    obtain ⟨d, _, hend⟩ := bind_eq_ok hc
    cases hend
    exact retrieve_settled h _
  | ensureWritableBytes len =>
    obtain ⟨d, hd, hend⟩ := bind_eq_ok hc
    cases hend
    exact ensureWritableBytes_settled h hop hd
  | readFd r =>
    obtain ⟨⟨d, n, e⟩, hd, hend⟩ := bind_eq_ok hc
    cases hend
    exact readFd_settled h hop hd

theorem reachable_settled (h : roomSystem.Reachable b) : b.Settled := by
  refine h.invariant ?_ ?_
  · rintro _ ⟨n, hn, rfl⟩
    exact ⟨new_valid hn, fun _ => rfl⟩
  · intro b l c hb hstep
    exact apply_settled hb hstep.1 hstep.2

/-- **Reserving space works for exactly these sizes.** On every buffer reached by
    calls that met the condition, and for every length the vector can hold,
    `ensure_writable_bytes` makes the room and keeps the readable bytes, and `append`
    stays inside the vector, if and only if the condition holds. -/
theorem reserve_iff (h : roomSystem.Reachable b) (hfit : b.writerIndex + len ≤ maxSize) :
    ((∃ c, b.ensureWritableBytes len = .ok c ∧ len ≤ c.writableBytes ∧ c.readable = b.readable) ↔
        b.Fits len) ∧
      ∀ data : List Byte, data.length = len → ((∃ c, b.append data = .ok c) ↔ b.Fits len) := by
  have hset := reachable_settled h
  refine ⟨ensureWritableBytes_iff hset hfit, ?_⟩
  rintro data rfl
  exact append_ok_iff hset.toValid hfit

/-- Three bytes behind a gap of two: two more fit after a move to the front. -/
theorem reserve_iff_sample :
    ∃ b, roomSystem.Reachable b ∧ b.writableBytes = 0 ∧ b.readable = [3] ∧
      ∃ c, b.ensureWritableBytes 2 = .ok c ∧ 2 ≤ c.writableBytes ∧ c.readable = b.readable := by
  let b : Buffer := ⟨[0, 0, 0, 0, 0, 0, 0, 0, 1, 2, 3], 10, 11⟩
  have h₁ : roomSystem.step (new 2) (.append [1, 2, 3], [])
      ⟨[0, 0, 0, 0, 0, 0, 0, 0, 1, 2, 3], 8, 11⟩ := ⟨by decide, rfl⟩
  have h₂ : roomSystem.step ⟨[0, 0, 0, 0, 0, 0, 0, 0, 1, 2, 3], 8, 11⟩
      (.retrieveAsString 2, [1, 2]) b := ⟨by decide, rfl⟩
  have hreach : roomSystem.Reachable b :=
    ⟨new 2, [(.append [1, 2, 3], []), (.retrieveAsString 2, [1, 2])], ⟨2, by decide, rfl⟩,
      .snoc (.snoc .nil h₁) h₂⟩
  exact ⟨b, hreach, rfl, rfl, (reserve_iff hreach (by decide)).1.mpr (Or.inl (by decide))⟩

/-- A new buffer throws at `2^31` bytes. -/
theorem reserve_of_2_31 :
    ¬∀ b, roomSystem.Reachable b → ∀ len, b.writerIndex + len ≤ maxSize →
      ∃ c, b.ensureWritableBytes len = .ok c ∧ len ≤ c.writableBytes ∧ c.readable = b.readable := by
  intro hall
  have hreach : roomSystem.Reachable (new kInitialSize) :=
    ⟨new kInitialSize, [], ⟨kInitialSize, by decide, rfl⟩, .nil⟩
  have hfits := (ensureWritableBytes_iff (reachable_settled hreach) (by decide)).mp
    (hall _ hreach (2 ^ 31) (by decide))
  revert hfits
  decide +kernel

end Buffer

end DamnWebServer
