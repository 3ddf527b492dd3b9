import DamnWebServer.Log.LogSink
import DamnWebServer.Log.StreamRoom

/-!
# What a printed time tells

Three texts are made of a timestamp: those of `to_string` and `to_formatted_string`,
and the head of a log record. `to_formatted_string` tells everything. `to_string`
keeps of the microseconds the bits that one million has. `format_time` streams
seventeen bytes of `YYYY/MM/DD HH:MM:SS`, which end with the minute.
-/

namespace DamnWebServer

-- ════════════════════════════════════════════════════════════════════════
-- The calendar
-- ════════════════════════════════════════════════════════════════════════

/-- The first second of the year 10000. -/
def endOfTime : Int := 253402300800

/-- A broken-down time with the fields in their ranges, of a year from 1969 on. -/
structure Tm.InRange (tm : Tm) (maxYear : Nat) : Prop where
  year_ge : 1969 ≤ tm.year + 1900
  year_le : tm.year + 1900 ≤ maxYear
  mon : tm.mon ≤ 11
  mday : tm.mday ≤ 31
  hour : tm.hour ≤ 23
  min : tm.min ≤ 59
  sec : tm.sec ≤ 60

/-- `gmtime_r` or `localtime` on the seconds up to the year 9999. -/
structure Calendar (breakDown : Int → Tm) (maxYear : Nat) : Prop where
  injective : ∀ a b, 0 ≤ a → a < endOfTime → 0 ≤ b → b < endOfTime →
    breakDown a = breakDown b → a = b
  inRange : ∀ a, 0 ≤ a → a < endOfTime → (breakDown a).InRange maxYear

/-- What the head of a record tells of a broken-down time. -/
def Tm.minute (tm : Tm) : Nat × Nat × Nat × Nat × Nat :=
  (tm.year, tm.mon, tm.mday, tm.hour, tm.min)

namespace Tm

variable {tm tm' : Tm} {maxYear maxYear' : Nat}

theorem InRange.length_year (h : tm.InRange maxYear) (hmax : maxYear ≤ 10000) :
    4 ≤ (ascii (toString (tm.year + 1900))).length ∧
      (ascii (toString (tm.year + 1900))).length ≤ 5 := by
  have hge := h.year_ge
  have hle := h.year_le
  exact ⟨lt_length_toString (k := 3) (by decide) (by omega),
    length_toString_le (by decide) (by omega)⟩

/-- A year of four digits or more is not padded. -/
theorem InRange.paddedYear (h : tm.InRange maxYear) (hmax : maxYear ≤ 10000) :
    paddedDecimal 32 4 (tm.year + 1900) = ascii (toString (tm.year + 1900)) :=
  paddedDecimal_of_length_le (h.length_year hmax).1

/-- `to_formatted_string` has a field of fixed width for each field. -/
theorem compact_append_inj {xs ys : List Byte} (h : tm.InRange 9999) (h' : tm'.InRange 9999)
    (heq : tm.compact ++ xs = tm'.compact ++ ys) : tm = tm' ∧ xs = ys := by
  have hyear : ∀ {n : Nat}, 1969 ≤ n → n ≤ 9999 → (ascii (toString n)).length = 4 := by
    intro n hge hle
    have hlow := lt_length_toString (n := n) (k := 3) (by decide) (by omega)
    have hhigh := length_toString_le (n := n) (k := 4) (by decide) (by omega)
    omega
  have hpad := h.paddedYear (by decide)
  have hpad' := h'.paddedYear (by decide)
  obtain ⟨hy, hy9, hmon, hmday, hhour, hmin, hsec⟩ := h
  obtain ⟨hy', hy9', hmon', hmday', hhour', hmin', hsec'⟩ := h'
  simp only [compact, List.append_assoc] at heq
  rw [hpad, hpad'] at heq
  obtain ⟨hyeq, heq⟩ := List.append_inj heq ((hyear hy hy9).trans (hyear hy' hy9').symm)
  have hyeq := toString_bytes_injective hyeq
  obtain ⟨hmoneq, heq⟩ := paddedDecimal_append_inj (by decide) (by omega) (by omega) heq
  obtain ⟨hmdayeq, heq⟩ := paddedDecimal_append_inj (by decide) (by omega) (by omega) heq
  obtain ⟨hhoureq, heq⟩ :=
    paddedDecimal_append_inj (by decide) (by omega) (by omega) (List.append_cancel_left heq)
  obtain ⟨hmineq, heq⟩ :=
    paddedDecimal_append_inj (by decide) (by omega) (by omega) (List.append_cancel_left heq)
  obtain ⟨hseceq, heq⟩ :=
    paddedDecimal_append_inj (by decide) (by omega) (by omega) (List.append_cancel_left heq)
  refine ⟨?_, heq⟩
  cases tm
  cases tm'
  simp only [Tm.mk.injEq]
  simp only at hyeq hmoneq hmdayeq hhoureq hmineq hseceq
  omega

theorem InRange.length_compact (h : tm.InRange 9999) : tm.compact.length = 17 := by
  have hpad := h.paddedYear (by decide)
  have hlow := (h.length_year (by decide)).1
  obtain ⟨_, hy9, hmon, hmday, hhour, hmin, hsec⟩ := h
  have hyear := length_toString_le (n := tm.year + 1900) (k := 4) (by decide) (by omega)
  have hblank : (ascii " ").length = 1 := rfl
  have hcolon : (ascii ":").length = 1 := rfl
  simp only [compact, hpad, List.length_append, hblank, hcolon]
  rw [length_paddedDecimal (by decide) (by omega), length_paddedDecimal (by decide) (by omega),
    length_paddedDecimal (by decide) (by omega), length_paddedDecimal (by decide) (by omega),
    length_paddedDecimal (by decide) (by omega)]
  omega

/-- The month to the minute. -/
def dayMinute (tm : Tm) : List Byte :=
  paddedDecimal 48 2 (tm.mon + 1) ++ ascii "/" ++ paddedDecimal 48 2 tm.mday ++ ascii " " ++
    paddedDecimal 48 2 tm.hour ++ ascii ":" ++ paddedDecimal 48 2 tm.min

theorem InRange.length_dayMinute (h : tm.InRange maxYear) : tm.dayMinute.length = 11 := by
  obtain ⟨_, _, hmon, hmday, hhour, hmin, _⟩ := h
  simp only [dayMinute, List.length_append]
  rw [length_paddedDecimal (by decide) (by omega), length_paddedDecimal (by decide) (by omega),
    length_paddedDecimal (by decide) (by omega), length_paddedDecimal (by decide) (by omega)]
  rfl

theorem dayMinute_inj (h : tm.InRange maxYear) (h' : tm'.InRange maxYear')
    (heq : tm.dayMinute = tm'.dayMinute) :
    tm.mon = tm'.mon ∧ tm.mday = tm'.mday ∧ tm.hour = tm'.hour ∧ tm.min = tm'.min := by
  obtain ⟨_, _, hmon, hmday, hhour, hmin, _⟩ := h
  obtain ⟨_, _, hmon', hmday', hhour', hmin', _⟩ := h'
  simp only [dayMinute, List.append_assoc] at heq
  obtain ⟨hmoneq, heq⟩ := paddedDecimal_append_inj (by decide) (by omega) (by omega) heq
  obtain ⟨hmdayeq, heq⟩ :=
    paddedDecimal_append_inj (by decide) (by omega) (by omega) (List.append_cancel_left heq)
  obtain ⟨hhoureq, heq⟩ :=
    paddedDecimal_append_inj (by decide) (by omega) (by omega) (List.append_cancel_left heq)
  have hmineq := paddedDecimal_injective (List.append_cancel_left heq)
  omega

/-- `t_time` is the year, a slash, the day and the minute, a colon and the seconds. -/
theorem InRange.text_eq (h : tm.InRange maxYear) (hmax : maxYear ≤ 10000) :
    tm.text = ascii (toString (tm.year + 1900)) ++ (ascii "/" ++ (tm.dayMinute ++ ascii ":")) ++
      paddedDecimal 48 2 tm.sec := by
  obtain ⟨_, hhigh⟩ := h.length_year hmax
  have hday := h.length_dayMinute
  have hsec := h.sec
  have hseclen : (paddedDecimal 48 2 tm.sec).length = 2 :=
    length_paddedDecimal (by decide) (by omega)
  have hslash : (ascii "/").length = 1 := rfl
  have hblank : (ascii " ").length = 1 := rfl
  have hcolon : (ascii ":").length = 1 := rfl
  rw [text, h.paddedYear hmax, List.take_of_length_le]
  · simp only [dayMinute, List.append_assoc]
  · simp only [dayMinute, List.length_append, hslash, hblank, hcolon] at hday ⊢
    omega

/-- The seventeen bytes: the seconds are cut off, and the colon too if the year has five
    digits. -/
theorem InRange.take_text (h : tm.InRange maxYear) (hmax : maxYear ≤ 10000) :
    tm.text.take 17 = ascii (toString (tm.year + 1900)) ++ 47 ::
      (tm.dayMinute ++ ascii ":").take (16 - (ascii (toString (tm.year + 1900))).length) := by
  obtain ⟨hlow, hhigh⟩ := h.length_year hmax
  have hday := h.length_dayMinute
  rw [h.text_eq hmax]
  generalize ascii (toString (tm.year + 1900)) = year at hlow hhigh ⊢
  have hcut : 17 - year.length = 16 - year.length + 1 := by omega
  have hslash : ascii "/" = [47] := rfl
  have hcolon : (ascii ":").length = 1 := rfl
  have hlen : 17 ≤ (year ++ (ascii "/" ++ (tm.dayMinute ++ ascii ":"))).length := by
    rw [List.length_append, List.length_append, List.length_append, hday, hslash, hcolon,
      List.length_singleton]
    omega
  rw [List.take_append_of_le_length hlen, List.take_append, List.take_of_length_le (by omega), hcut,
    hslash, List.singleton_append, List.take_succ_cons]

theorem InRange.length_text (h : tm.InRange maxYear) (hmax : maxYear ≤ 10000) :
    17 ≤ tm.text.length := by
  have hlow := (h.length_year hmax).1
  have hday := h.length_dayMinute
  rw [h.text_eq hmax]
  simp only [List.length_append, hday]
  change 17 ≤ _ + (1 + (11 + 1)) + _
  omega

/-- **The head of a record tells the minute**, and nothing of the second. -/
theorem take_text_eq_iff (h : tm.InRange 10000) (h' : tm'.InRange 10000) :
    tm.text.take 17 = tm'.text.take 17 ↔ tm.minute = tm'.minute := by
  rw [h.take_text (by decide), h'.take_text (by decide)]
  have hslash : ∀ n : Nat, (47 : Byte) ∉ ascii (toString n) := by
    intro n hmem
    exact absurd (List.all_eq_true.mp (isDigit_toString n) 47 hmem) (by decide)
  constructor
  · intro heq
    -- the year ends at the first slash
    obtain ⟨hyear, hrest⟩ := append_cons_inj (hslash _) (hslash _) heq
    have hlen := (h'.length_year (by decide)).2
    rw [hyear] at hrest
    have hday := congrArg (List.take 11) hrest
    rw [List.take_take, List.take_take, Nat.min_eq_left (by omega),
      List.take_left' h.length_dayMinute, List.take_left' h'.length_dayMinute] at hday
    obtain ⟨hmon, hmday, hhour, hmin⟩ := dayMinute_inj h h' hday
    have hyear := toString_bytes_injective hyear
    unfold minute
    rw [hmon, hmday, hhour, hmin, Nat.add_right_cancel hyear]
  · intro heq
    simp only [minute, Prod.mk.injEq] at heq
    obtain ⟨hyear, hmon, hmday, hhour, hmin⟩ := heq
    simp only [dayMinute, hyear, hmon, hmday, hhour, hmin]

end Tm

-- ════════════════════════════════════════════════════════════════════════
-- The texts of a timestamp
-- ════════════════════════════════════════════════════════════════════════

/-- Seconds, a dot and six digits. -/
def readTimestamp (bs : List Byte) : Option Timestamp :=
  match findByte 46 bs with
  | some (seconds, micros) =>
    if micros.length = 6 then
      (readDecimal seconds).bind fun s => (readDecimal micros).map fun m : Nat =>
        (s : Int) * kMicrosecondsPerSecond + m
    else none
  | none => none

namespace Timestamp

variable {t u : Int}

/-- From 1970 to 9999. -/
def InRange (t : Timestamp) : Prop := t ∈ Set.Ico (0 : Int) (endOfTime * kMicrosecondsPerSecond)

/-- The bits of a timestamp that one million has, too. -/
def kept (t : Timestamp) : Nat := t.toNat &&& 1000000

theorem kept_le (t : Timestamp) : kept t ≤ 1000000 := Nat.and_le_right

theorem InRange.bounds (h : InRange t) : 0 ≤ t ∧ t < 253402300800000000 := h

theorem InRange.split (h : InRange t) :
    0 ≤ secondsSinceEpoch t ∧ secondsSinceEpoch t < endOfTime ∧
      0 ≤ t.tmod kMicrosecondsPerSecond ∧ t.tmod kMicrosecondsPerSecond < 1000000 ∧
      secondsSinceEpoch t * kMicrosecondsPerSecond + t.tmod kMicrosecondsPerSecond = t := by
  obtain ⟨hpos, hlt⟩ := h.bounds
  unfold secondsSinceEpoch endOfTime kMicrosecondsPerSecond
  rw [Int.tdiv_eq_ediv_of_nonneg hpos, Int.tmod_eq_emod_of_nonneg hpos]
  omega

/-- What `to_string` prints behind the dot. -/
theorem InRange.and_eq (h : InRange t) :
    (BitVec.ofInt 64 t &&& BitVec.ofInt 64 kMicrosecondsPerSecond).toInt = kept t := by
  obtain ⟨hpos, hlt⟩ := h.bounds
  have hnat : (BitVec.ofInt 64 t &&& BitVec.ofInt 64 kMicrosecondsPerSecond).toNat = kept t := by
    have ht : (BitVec.ofInt 64 t).toNat = t.toNat := by
      rw [BitVec.toNat_ofInt, Int.emod_eq_of_lt hpos (by omega)]
    rw [BitVec.toNat_and, ht]
    rfl
  have hle := kept_le t
  rw [BitVec.toInt_eq_toNat_of_lt (by omega), hnat]

theorem InRange.toString_eq (h : InRange t) :
    Timestamp.toString t = ascii (ToString.toString (secondsSinceEpoch t).toNat) ++
      46 :: paddedDecimal 48 6 (kept t) := by
  obtain ⟨hsec, hend, _⟩ := h.split
  unfold endOfTime at hend
  have habs : (secondsSinceEpoch t).natAbs = (secondsSinceEpoch t).toNat := by omega
  have hdot : ascii "." = [46] := rfl
  have hseclen := length_toString_le (n := (secondsSinceEpoch t).toNat) (k := 12) (by decide) (by omega)
  have hkept := kept_le t
  have hkeptlen : (paddedDecimal 48 6 (kept t)).length ≤ 7 :=
    length_paddedDecimal_le (by decide) (by decide) (by omega)
  unfold toString
  simp only [h.and_eq, paddedInteger_natCast, ascii_toString_nonneg hsec, habs, hdot]
  rw [List.take_of_length_le, List.append_assoc, List.singleton_append]
  simp only [List.length_append, List.length_singleton]
  omega

theorem dot_notMem_toString (n : Nat) : (46 : Byte) ∉ ascii (ToString.toString n) := by
  intro hmem
  exact absurd (List.all_eq_true.mp (isDigit_toString n) 46 hmem) (by decide)

/-- **`to_string` tells the second and the kept bits.** -/
theorem toString_eq_iff (ht : InRange t) (hu : InRange u) :
    Timestamp.toString t = Timestamp.toString u ↔
      secondsSinceEpoch t = secondsSinceEpoch u ∧ kept t = kept u := by
  rw [ht.toString_eq, hu.toString_eq]
  constructor
  · intro heq
    obtain ⟨hsec, hkept⟩ := append_cons_inj (dot_notMem_toString _) (dot_notMem_toString _) heq
    have hnat := toString_bytes_injective hsec
    have hpos := ht.split.1
    have hpos' := hu.split.1
    exact ⟨by omega, paddedDecimal_injective hkept⟩
  · rintro ⟨hsec, hkept⟩
    rw [hsec, hkept]

/-- The text reads as the timestamp if all bits of the microseconds are kept. -/
theorem readTimestamp_toString_iff (h : InRange t) :
    readTimestamp (Timestamp.toString t) = some t ↔ (kept t : Int) = t.tmod kMicrosecondsPerSecond := by
  obtain ⟨hsec, _, _, hmicros, hsplit⟩ := h.split
  have hfind : findByte 46 (Timestamp.toString t) =
      some (ascii (ToString.toString (secondsSinceEpoch t).toNat), paddedDecimal 48 6 (kept t)) :=
    findByte_eq_some.mpr ⟨h.toString_eq, dot_notMem_toString _⟩
  rw [readTimestamp, hfind]
  simp only [readDecimal_toString, readDecimal_paddedDecimal, Option.bind_some, Option.map_some]
  have hle := kept_le t
  by_cases hmax : kept t = 1000000
  · -- seven digits
    have hlen : (paddedDecimal 48 6 (kept t)).length ≠ 6 := by
      rw [hmax]
      decide +kernel
    rw [if_neg hlen]
    constructor
    · intro hnone
      cases hnone
    · intro heq
      omega
  · have hnat : ((secondsSinceEpoch t).toNat : Int) = secondsSinceEpoch t := Int.toNat_of_nonneg hsec
    rw [if_pos (length_paddedDecimal (by decide) (by omega)), Option.some.injEq, hnat]
    constructor
    · intro heq
      exact Int.add_left_cancel (heq.trans hsplit.symm)
    · intro heq
      rw [heq]
      exact hsplit

/-- **`to_formatted_string` tells the timestamp.** -/
theorem toFormattedString_inj {gmtime : Int → Tm} (hgmtime : Calendar gmtime 9999)
    (ht : InRange t) (hu : InRange u)
    (heq : toFormattedString gmtime t true = toFormattedString gmtime u true) : t = u := by
  have hwhole : ∀ {v : Int}, InRange v → toFormattedString gmtime v true =
      (gmtime (secondsSinceEpoch v)).compact ++
        (ascii "." ++ paddedDecimal 48 6 (v.tmod kMicrosecondsPerSecond).toNat) := by
    intro v hv
    obtain ⟨hsec, hend, hpos, hmicros, _⟩ := hv.split
    have hcompact := (hgmtime.inRange _ hsec hend).length_compact
    have hmicroslen : (paddedDecimal 48 6 (v.tmod kMicrosecondsPerSecond).toNat).length = 6 :=
      length_paddedDecimal (by decide) (by omega)
    have hdot : (ascii ".").length = 1 := rfl
    have hnat : paddedInteger 6 (v.tmod kMicrosecondsPerSecond) =
        paddedDecimal 48 6 (v.tmod kMicrosecondsPerSecond).toNat := by
      rw [← paddedInteger_natCast, Int.toNat_of_nonneg hpos]
    simp only [toFormattedString, if_true, hnat]
    rw [List.take_of_length_le, List.append_assoc]
    simp only [List.length_append, hdot]
    omega
  obtain ⟨hsec, hend, hpos, _, hsplit⟩ := ht.split
  obtain ⟨hsec', hend', hpos', _, hsplit'⟩ := hu.split
  rw [hwhole ht, hwhole hu] at heq
  obtain ⟨htm, hrest⟩ := Tm.compact_append_inj (hgmtime.inRange _ hsec hend)
    (hgmtime.inRange _ hsec' hend') heq
  have hseconds := hgmtime.injective _ _ hsec hend hsec' hend' htm
  have hmicros := paddedDecimal_injective (List.append_cancel_left hrest)
  rw [← hsplit, ← hsplit', hseconds]
  omega

end Timestamp

-- ════════════════════════════════════════════════════════════════════════
-- The head of a record
-- ════════════════════════════════════════════════════════════════════════

namespace LogStatement

variable {st : LogStatement} {memory : List Byte} {h : memory.length = smallBufferSize}

/-- The statement at a time: `format_time` reads the clock and asks `localtime`. -/
def readClock (localtime : Int → Tm) (now : Timestamp) (st : LogStatement) : LogStatement :=
  { st with
    tm := localtime now.secondsSinceEpoch
    microseconds := (now.tmod kMicrosecondsPerSecond).toNat }

/-- What `format_time` streams into a new record. -/
def timePrefix (st : LogStatement) (memory : List Byte) (h : memory.length = smallBufferSize) :
    Except Fault (List Byte) := do
  let s ← st.formatTime.foldlM LogStream.insert (FixedBuffer.new memory h)
  return s.records.flatten

theorem insert_template {s : LogStream} {data : List Byte} {len : Nat} (hlen : len ≤ data.length)
    (hsmall : len ≤ 17) (hroom : 17 < s.avail) :
    ∃ t, s.insert (.template data len) = .ok t ∧ t.cur = s.cur + len ∧
      t.records = s.records ++ [data.take len] := by
  have hneed : (LogArg.template data len).need ≤ s.avail := by
    change (data.take len).length + 1 ≤ s.avail
    rw [List.length_take]
    omega
  have hvalid : (LogArg.template data len).Valid := ⟨by omega, by omega, by omega⟩
  obtain ⟨t, ht, ⟨_, hcur, hrecords⟩ | ⟨hno, _⟩⟩ := LogStream.appendTemplate_took (s := s) hvalid
  · refine ⟨t, ht, ?_, hrecords⟩
    rw [hcur]
    change s.cur + (data.take len).length = s.cur + len
    rw [List.length_take, Nat.min_eq_left hlen]
  · exact absurd hneed hno

theorem timePrefix_eq (htext : 17 ≤ st.tm.text.length) (hmicros : st.microseconds < 1000000) :
    st.timePrefix memory h =
      .ok (st.tm.text.take 17 ++ (paddedDecimal 48 6 st.microseconds ++ ascii " ")) := by
  have hlen : (paddedDecimal 48 6 st.microseconds).length = 6 :=
    length_paddedDecimal (by decide) (by omega)
  have hblank : (ascii " ").length = 1 := rfl
  have hwhole : (paddedDecimal 48 6 st.microseconds ++ ascii " ").take 31 =
      paddedDecimal 48 6 st.microseconds ++ ascii " " :=
    List.take_of_length_le (by rw [List.length_append, hlen, hblank]; omega)
  obtain ⟨s, hs, hcur, hrecords⟩ := insert_template (s := FixedBuffer.new memory h) htext
    (Nat.le_refl 17) (show 17 < 4000 - 0 by decide)
  have hseven : 7 ≤ (paddedDecimal 48 6 st.microseconds ++ ascii " ").length := by
    rw [List.length_append, hlen, hblank]
  obtain ⟨t, ht, _, hrecords'⟩ := insert_template (s := s) hseven (by decide)
    (by rw [FixedBuffer.avail, hcur]; change 17 < 4000 - (0 + 17); decide)
  have hall : (paddedDecimal 48 6 st.microseconds ++ ascii " ").take 7 =
      paddedDecimal 48 6 st.microseconds ++ ascii " " :=
    List.take_of_length_le (by rw [List.length_append, hlen, hblank])
  have hrun : st.formatTime.foldlM LogStream.insert (FixedBuffer.new memory h) = .ok t := by
    have hs : LogStream.insert (FixedBuffer.new memory h) (.template st.tm.text 17) = .ok s := hs
    have ht : LogStream.insert s (.template (paddedDecimal 48 6 st.microseconds ++ ascii " ") 7) =
      .ok t := ht
    simp only [formatTime, hwhole, List.foldlM_cons, List.foldlM_nil, hs, ht, bind, Except.bind,
      pure, Except.pure]
  rw [timePrefix, hrun]
  change Except.ok t.records.flatten = _
  rw [hrecords', hrecords, hall]
  simp [FixedBuffer.new]

/-- **The head of a record tells the minute and the microseconds.** -/
theorem timePrefix_eq_iff (st : LogStatement) (memory : List Byte)
    (h : memory.length = smallBufferSize) {localtime : Int → Tm} (hlocaltime : Calendar localtime 10000)
    {t u : Int} (ht : Timestamp.InRange t) (hu : Timestamp.InRange u) :
    (st.readClock localtime t).timePrefix memory h =
        (st.readClock localtime u).timePrefix memory h ↔
      (localtime (Timestamp.secondsSinceEpoch t)).minute =
          (localtime (Timestamp.secondsSinceEpoch u)).minute ∧
        t.tmod kMicrosecondsPerSecond = u.tmod kMicrosecondsPerSecond := by
  obtain ⟨hsec, hend, hpos, hmicros, _⟩ := ht.split
  obtain ⟨hsec', hend', hpos', hmicros', _⟩ := hu.split
  have htm := hlocaltime.inRange _ hsec hend
  have htm' := hlocaltime.inRange _ hsec' hend'
  have hlen := htm.length_text (by decide)
  have hlen' := htm'.length_text (by decide)
  have hhead : (st.readClock localtime t).timePrefix memory h = _ :=
    timePrefix_eq hlen
      (by change (t.tmod kMicrosecondsPerSecond).toNat < 1000000; omega)
  have hhead' : (st.readClock localtime u).timePrefix memory h = _ :=
    timePrefix_eq hlen'
      (by change (u.tmod kMicrosecondsPerSecond).toNat < 1000000; omega)
  rw [hhead, hhead', Except.ok.injEq, ← Tm.take_text_eq_iff htm htm']
  constructor
  · intro heq
    obtain ⟨htext, hrest⟩ := List.append_inj heq
      ((List.length_take_of_le hlen).trans (List.length_take_of_le hlen').symm)
    have hnat : (t.tmod kMicrosecondsPerSecond).toNat = (u.tmod kMicrosecondsPerSecond).toNat :=
      paddedDecimal_injective (List.append_cancel_right hrest)
    exact ⟨htext, by omega⟩
  · rintro ⟨htext, hmicros⟩
    change (localtime (Timestamp.secondsSinceEpoch t)).text.take 17 ++ _ =
      (localtime (Timestamp.secondsSinceEpoch u)).text.take 17 ++ _
    rw [htext]
    simp only [readClock, hmicros]

end LogStatement

/-- **When printed times tell instants apart.** For two different timestamps of the years
    1970 to 9999: all three texts differ, and that of `to_string` reads as the
    timestamp, exactly if no bit of the microseconds is lost to `&`, the seconds or the
    bits kept differ, and they are not the same microsecond of two seconds of one
    minute. -/
theorem printed_times_iff (gmtime localtime : Int → Tm) (hgmtime : Calendar gmtime 9999)
    (hlocaltime : Calendar localtime 10000) (st : LogStatement) (memory : List Byte)
    (h : memory.length = smallBufferSize) (t u : Timestamp) (ht : t.InRange) (hu : u.InRange)
    (hne : t ≠ u) :
    (t.toString ≠ u.toString ∧ readTimestamp t.toString = some t ∧
        t.toFormattedString gmtime true ≠ u.toFormattedString gmtime true ∧
        (st.readClock localtime t).timePrefix memory h ≠
          (st.readClock localtime u).timePrefix memory h) ↔
      (t.kept : Int) = t.tmod kMicrosecondsPerSecond ∧
        (t.secondsSinceEpoch ≠ u.secondsSinceEpoch ∨ t.kept ≠ u.kept) ∧
        ((localtime t.secondsSinceEpoch).minute ≠ (localtime u.secondsSinceEpoch).minute ∨
          t.tmod kMicrosecondsPerSecond ≠ u.tmod kMicrosecondsPerSecond) := by
  have hformatted : t.toFormattedString gmtime true ≠ u.toFormattedString gmtime true :=
    fun heq => hne (Timestamp.toFormattedString_inj hgmtime ht hu heq)
  have hstring := Timestamp.toString_eq_iff ht hu
  have hhead := LogStatement.timePrefix_eq_iff st memory h hlocaltime ht hu
  rw [Timestamp.readTimestamp_toString_iff ht, ne_eq, hstring, not_and_or,
    ne_eq (LogStatement.timePrefix _ _ _), hhead, not_and_or]
  constructor
  · rintro ⟨hdiffer, hread, _, htold⟩
    exact ⟨hread, hdiffer, htold⟩
  · rintro ⟨hread, hdiffer, htold⟩
    exact ⟨hdiffer, hread, hformatted, htold⟩

/-- A calendar with months of 31 days, which is that of universal time in January 1970. -/
def sampleTime (s : Int) : Tm where
  year := 70 + (s / 60 / 60 / 24 / 31 / 12).toNat
  mon := (s / 60 / 60 / 24 / 31 % 12).toNat
  mday := (s / 60 / 60 / 24 % 31).toNat + 1
  hour := (s / 60 / 60 % 24).toNat
  min := (s / 60 % 60).toNat
  sec := (s % 60).toNat

/-- A number is known by its quotient and its remainder. -/
theorem eq_of_ediv_emod {a b k : Int} (hdiv : a / k = b / k) (hmod : (a % k).toNat = (b % k).toNat)
    (hk : 0 < k) : a = b := by
  have ha := Int.emod_nonneg a (Int.ne_of_gt hk)
  have hb := Int.emod_nonneg b (Int.ne_of_gt hk)
  rw [← Int.mul_ediv_add_emod a k, ← Int.mul_ediv_add_emod b k, hdiv]
  omega

theorem sampleTime_calendar {maxYear : Nat} (hmax : 9999 ≤ maxYear) :
    Calendar sampleTime maxYear where
  injective a b ha _ hb _ heq := by
    simp only [sampleTime, Tm.mk.injEq] at heq
    obtain ⟨hyear, hmon, hmday, hhour, hmin, hsec⟩ := heq
    have hpos : ∀ {s : Int}, 0 ≤ s → 0 ≤ s / 60 / 60 / 24 / 31 / 12 := fun hs => by positivity
    have hyears : a / 60 / 60 / 24 / 31 / 12 = b / 60 / 60 / 24 / 31 / 12 := by
      rw [← Int.toNat_of_nonneg (hpos ha), ← Int.toNat_of_nonneg (hpos hb), Nat.add_left_cancel hyear]
    have hmonths := eq_of_ediv_emod hyears hmon (by decide)
    have hdays := eq_of_ediv_emod hmonths (Nat.add_right_cancel hmday) (by decide)
    have hhours := eq_of_ediv_emod hdays hhour (by decide)
    exact eq_of_ediv_emod (eq_of_ediv_emod hhours hmin (by decide)) hsec (by decide)
  inRange a ha hend := by
    unfold endOfTime at hend
    refine ⟨?_, ?_, ?_, ?_, ?_, ?_, ?_⟩ <;> simp only [sampleTime] <;> omega

/-- Microsecond 64 has one bit, and keeps it. -/
theorem printed_times_sample :
    Timestamp.toString 64 ≠ Timestamp.toString 0 ∧ readTimestamp (Timestamp.toString 64) = some 64 ∧
      Timestamp.toFormattedString sampleTime 64 true ≠
        Timestamp.toFormattedString sampleTime 0 true ∧
      (sampleStatement.readClock sampleTime 64).timePrefix (List.replicate smallBufferSize 0)
          List.length_replicate ≠
        (sampleStatement.readClock sampleTime 0).timePrefix (List.replicate smallBufferSize 0)
          List.length_replicate := by
  refine (printed_times_iff sampleTime sampleTime (sampleTime_calendar (by decide))
    (sampleTime_calendar (by decide)) sampleStatement _ _ 64 0 ?_ ?_ (by decide)).mpr ?_
  · exact Set.mem_Ico.mpr (by decide)
  · exact Set.mem_Ico.mpr (by decide)
  · exact ⟨by decide, .inr (by decide), .inr (by decide)⟩

/-- Microseconds 0 and 1 have one text; seconds 0 and 1 have one head of a record. -/
theorem printed_times_lost :
    (¬∀ t u : Timestamp, t.InRange → u.InRange → t ≠ u →
        t.toString ≠ u.toString ∧ readTimestamp t.toString = some t) ∧
      ¬∀ localtime : Int → Tm, Calendar localtime 10000 →
        ∀ t u : Timestamp, t.InRange → u.InRange → t ≠ u →
          (sampleStatement.readClock localtime t).timePrefix (List.replicate smallBufferSize 0)
              List.length_replicate ≠
            (sampleStatement.readClock localtime u).timePrefix (List.replicate smallBufferSize 0)
              List.length_replicate := by
  have hzero : Timestamp.InRange 0 := Set.mem_Ico.mpr (by decide)
  have hone : Timestamp.InRange 1 := Set.mem_Ico.mpr (by decide)
  have hsecond : Timestamp.InRange 1000000 := Set.mem_Ico.mpr (by decide)
  constructor
  · intro hall
    exact (hall 0 1 hzero hone (by decide)).1
      ((Timestamp.toString_eq_iff hzero hone).mpr ⟨by decide, by decide⟩)
  · intro hall
    have hcalendar : Calendar sampleTime 10000 := sampleTime_calendar (by decide)
    exact hall sampleTime hcalendar 0 1000000 hzero hsecond (by decide)
      ((LogStatement.timePrefix_eq_iff _ _ _ hcalendar hzero hsecond).mpr ⟨by decide, by decide⟩)

end DamnWebServer
