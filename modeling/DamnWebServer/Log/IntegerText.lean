import DamnWebServer.Base.Decimal
import DamnWebServer.Log.LogStream

/-!
# Integers in the log stream

`format_integer` (`base/log/log_stream.h`) never negates its argument: the remainder
of a negative number is negative, and `zero` points into the middle of a mirrored
table. The digits come out last one first, for both signs those of the absolute
value. `formatIntegerOf` is the instance of the template at a type, with every value
checked against the range of the type it is computed in.
-/

namespace DamnWebServer

-- ════════════════════════════════════════════════════════════════════════
-- The digit loop
-- ════════════════════════════════════════════════════════════════════════

/-- Quotient and remainder by ten go toward zero: their absolute values are those of the
    absolute value. -/
theorem tmod_tdiv_ten (v : Int) :
    (v.tmod 10).natAbs = v.natAbs % 10 ∧ (v.tdiv 10).natAbs = v.natAbs / 10 ∧
      v.tmod 10 + 10 * v.tdiv 10 = v :=
  ⟨Int.natAbs_tmod v 10, Int.natAbs_tdiv v 10, Int.tmod_add_mul_tdiv v 10⟩

theorem zeroAt_of_natAbs_lt {r : Int} (h : r.natAbs < 10) : zeroAt r = .ok (digitByte r.natAbs) := by
  have hlow : -9 ≤ r := by omega
  have hhigh : r ≤ 9 := by omega
  interval_cases r <;> rfl

/-- The digits of the absolute value, the last one first, whatever the sign. -/
theorem integerDigits_eq {fuel : Nat} {num : Int} (h : num.natAbs < fuel) :
    integerDigits fuel num = .ok (ascii (toString num.natAbs)).reverse := by
  induction fuel generalizing num with
  | zero => omega
  | succ fuel ih =>
    obtain ⟨hmod, hdiv, -⟩ := tmod_tdiv_ten num
    have hdigit : zeroAt (num.tmod 10) = .ok (digitByte (num.natAbs % 10)) := by
      rw [zeroAt_of_natAbs_lt (by omega), hmod]
    rw [integerDigits, hdigit]
    by_cases hmore : num.tdiv 10 ≠ 0
    · -- a quotient is left: its digits follow
      have hrest := ih (show (num.tdiv 10).natAbs < fuel by omega)
      rw [hdiv] at hrest
      rw [ascii_toString_of_le (by omega), List.reverse_append]
      simp only [bind, Except.bind, if_pos hmore, hrest]
      rfl
    · rw [ascii_toString_of_lt (by omega), Nat.mod_eq_of_lt (by omega)]
      simp only [bind, Except.bind, if_neg hmore]
      rfl

-- ════════════════════════════════════════════════════════════════════════
-- Integer types
-- ════════════════════════════════════════════════════════════════════════

/-- The integer types that `operator<<` has an overload for. -/
inductive IntType where
  | short | unsignedShort | int | unsignedInt | long | unsignedLong | longLong | unsignedLongLong
  deriving DecidableEq, Repr

namespace IntType

variable {T : IntType} {v : Int}

def min : IntType → Int
  | .short => -2 ^ 15
  | .int => -2 ^ 31
  | .long | .longLong => -2 ^ 63
  | .unsignedShort | .unsignedInt | .unsignedLong | .unsignedLongLong => 0

def max : IntType → Int
  | .short => 2 ^ 15 - 1
  | .unsignedShort => 2 ^ 16 - 1
  | .int => 2 ^ 31 - 1
  | .unsignedInt => 2 ^ 32 - 1
  | .long | .longLong => 2 ^ 63 - 1
  | .unsignedLong | .unsignedLongLong => 2 ^ 64 - 1

/-- A value of the type. -/
def Holds (T : IntType) (v : Int) : Prop := T.min ≤ v ∧ v ≤ T.max

instance instDecidableHolds (T : IntType) (v : Int) : Decidable (T.Holds v) :=
  inferInstanceAs (Decidable (T.min ≤ v ∧ v ≤ T.max))

/-- A result that the type has to hold. -/
def value (T : IntType) (v : Int) : Except Fault Int := if T.Holds v then .ok v else .error .overflow

/-- The type that arithmetic on values of this one is done in. -/
def promoted : IntType → IntType
  | .short | .unsignedShort => .int
  | T => T

/-- The overloads for the types of sixteen bits cast their argument. -/
def streamed : IntType → IntType
  | .short => .int
  | .unsignedShort => .unsignedInt
  | T => T

theorem value_of_holds (h : T.Holds v) : T.value v = .ok v := if_pos h

theorem Holds.bounds (h : T.Holds v) : -2 ^ 63 ≤ v ∧ v < 2 ^ 64 := by
  obtain ⟨hmin, hmax⟩ := h
  cases T <;> simp only [min, max] at hmin hmax <;> omega

theorem Holds.promoted (h : T.Holds v) : T.promoted.Holds v := by
  obtain ⟨hmin, hmax⟩ := h
  cases T <;> refine ⟨?_, ?_⟩ <;> simp only [IntType.promoted, min, max] at hmin hmax ⊢ <;> omega

theorem Holds.streamed (h : T.Holds v) : T.streamed.Holds v := by
  obtain ⟨hmin, hmax⟩ := h
  cases T <;> refine ⟨?_, ?_⟩ <;> simp only [IntType.streamed, min, max] at hmin hmax ⊢ <;> omega

/-- A type with a value holds everything between that and zero. -/
theorem Holds.toward_zero {w : Int} (h : T.Holds v) (hpos : 0 ≤ v → 0 ≤ w ∧ w ≤ v)
    (hneg : v < 0 → v ≤ w ∧ w ≤ 0) : T.Holds w := by
  have hzero : T.min ≤ 0 ∧ 0 ≤ T.max := by cases T <;> decide
  obtain ⟨hmin, hmax⟩ := h
  unfold Holds
  omega

theorem Holds.tmod (h : T.Holds v) : T.Holds (v.tmod 10) := by
  obtain ⟨hmod, hdiv, hsum⟩ := tmod_tdiv_ten v
  exact h.toward_zero (by omega) (by omega)

theorem Holds.tdiv (h : T.Holds v) : T.Holds (v.tdiv 10) := by
  obtain ⟨hmod, hdiv, hsum⟩ := tmod_tdiv_ten v
  exact h.toward_zero (by omega) (by omega)

/-- A remainder by ten fits into an `int`, which `static_cast<int>` makes of it. -/
theorem holds_int_tmod (v : Int) : IntType.int.Holds (v.tmod 10) := by
  obtain ⟨hmod, -, -⟩ := tmod_tdiv_ten v
  refine ⟨?_, ?_⟩ <;> simp only [min, max] <;> omega

end IntType

-- ════════════════════════════════════════════════════════════════════════
-- The template at a type
-- ════════════════════════════════════════════════════════════════════════

/-- The digit loop of `format_integer<T>`. The operands of `%` and `/` are promoted, the
    remainder is cast to `int`, and the quotient goes back into `num`. -/
def digitsOf (T : IntType) : Nat → Int → Except Fault (List Byte)
  | 0, _ => .error .outOfFuel
  | fuel + 1, num => do
    let remainder ← IntType.int.value (← T.promoted.value (num.tmod 10))
    let d ← zeroAt remainder
    let num ← T.value (← T.promoted.value (num.tdiv 10))
    if num ≠ 0 then return d :: (← digitsOf T fuel num) else return [d]

theorem digitsOf_eq {T : IntType} {fuel : Nat} {num : Int} (h : T.Holds num) :
    digitsOf T fuel num = integerDigits fuel num := by
  induction fuel generalizing num with
  | zero => rfl
  | succ fuel ih =>
    rw [digitsOf, integerDigits, IntType.value_of_holds h.tmod.promoted,
      IntType.value_of_holds h.tdiv.promoted]
    simp only [bind, Except.bind, IntType.value_of_holds (IntType.holds_int_tmod num),
      IntType.value_of_holds h.tdiv, ih h.tdiv]

namespace LogStream

variable {s : LogStream} {T : IntType} {v : Int}

/-- `format_integer<T>`, where `cur - start` is cast to `int`. -/
def formatIntegerOf (T : IntType) (s : LogStream) (num : Int) : Except Fault LogStream :=
  if maxNumricSize ≤ s.avail then do
    let stored ← digitsOf T (num.natAbs + 1) num
    let text := if num < 0 then stored ++ ascii "-" else stored
    let s ← s.store (text ++ [0])
    let s ← s.store text.reverse
    let len ← IntType.int.value text.length
    s.add len.toNat
  else .ok s

/-- `operator<<` of an integer type. -/
def insertInteger (T : IntType) (s : LogStream) (v : Int) : Except Fault LogStream :=
  s.formatIntegerOf T.streamed v

/-- The text of an integer of at most 64 bits, its sign and its terminator. -/
theorem length_integer_text (hlow : -2 ^ 63 ≤ v) (hhigh : v < 2 ^ 64) :
    (ascii (toString v)).length + 1 ≤ 22 := by
  by_cases hneg : v < 0
  · have hlen := length_toString_le (n := v.natAbs) (k := 19) (by decide) (by omega)
    rw [ascii_toString_neg hneg, List.length_cons]
    omega
  · have hlen := length_toString_le (n := v.natAbs) (k := 20) (by decide) (by omega)
    rw [ascii_toString_nonneg (by omega)]
    omega

/-- The loop and the sign leave the text in reverse. -/
theorem reverse_stored (v : Int) :
    (if v < 0 then (ascii (toString v.natAbs)).reverse ++ ascii "-"
      else (ascii (toString v.natAbs)).reverse) = (ascii (toString v)).reverse := by
  split
  · next hneg =>
    rw [ascii_toString_neg hneg, List.reverse_cons]
    rfl
  · next hneg => rw [ascii_toString_nonneg (by omega)]

/-- **`format_integer` prints the integer**, its terminator behind it, and touches
    nothing else. -/
theorem formatInteger_spec (hroom : maxNumricSize ≤ s.avail) (hlow : -2 ^ 63 ≤ v)
    (hhigh : v < 2 ^ 64) :
    ∃ t, s.formatInteger v = .ok t ∧ t.data = s.fill (ascii (toString v) ++ [0]) ∧
      t.cur = s.cur + (ascii (toString v)).length ∧
      t.records = s.records ++ [ascii (toString v)] := by
  have hlen := length_integer_text hlow hhigh
  have hfits : s.cur + ((ascii (toString v)).length + 1) ≤ smallBufferSize := by
    unfold maxNumricSize FixedBuffer.avail at hroom
    omega
  have hreversed : s.cur + ((ascii (toString v)).reverse ++ [0]).length ≤ smallBufferSize := by
    rwa [List.length_append, List.length_reverse]
  obtain ⟨t, ht, htdata, htcur, htrecords⟩ := FixedBuffer.store_of_le hreversed
  have hagain : t.cur + (ascii (toString v)).length ≤ smallBufferSize := by omega
  obtain ⟨u, hu, hudata, hucur, hurecords⟩ := FixedBuffer.store_of_le hagain
  have hfill : u.data = s.fill (ascii (toString v) ++ [0]) := by
    rw [hudata, FixedBuffer.fill_fill htdata htcur (by simp), List.drop_left' (by simp)]
  obtain ⟨r, hr, hrdata, hrcur, hrrecords⟩ :=
    FixedBuffer.add_of_le hfill (hucur.trans htcur) (hurecords.trans htrecords)
      (ascii (toString v)).length (by simp) (by rwa [List.length_append])
  refine ⟨r, ?_, hrdata, hrcur, ?_⟩
  · rw [formatInteger, if_pos hroom, integerDigits_eq (Nat.lt_succ_self _)]
    simp only [bind, Except.bind, reverse_stored, ht, List.reverse_reverse, hu, List.length_reverse,
      hr]
  · rw [hrrecords, List.take_left' rfl]

/-- Without the reserve nothing is printed. -/
theorem formatInteger_dropped (hroom : ¬maxNumricSize ≤ s.avail) : s.formatInteger v = .ok s :=
  if_neg hroom

/-- No value leaves its type, so the template computes with integers. -/
theorem formatIntegerOf_eq (h : T.Holds v) : s.formatIntegerOf T v = s.formatInteger v := by
  obtain ⟨hlow, hhigh⟩ := h.bounds
  have hlen := length_integer_text hlow hhigh
  have hint : IntType.int.Holds ((ascii (toString v)).reverse.length : Nat) := by
    rw [List.length_reverse]
    refine ⟨?_, ?_⟩ <;> simp only [IntType.min, IntType.max] <;> omega
  rw [formatIntegerOf, formatInteger, digitsOf_eq h, integerDigits_eq (Nat.lt_succ_self _)]
  simp only [bind, Except.bind, reverse_stored, IntType.value_of_holds hint, Int.toNat_natCast]

end LogStream

-- ════════════════════════════════════════════════════════════════════════
-- The numeral
-- ════════════════════════════════════════════════════════════════════════

/-- Digits without a zero in front, unless they are `0`, behind a minus sign where the
    number is negative. -/
def CanonicalNumeral (v : Int) (text : List Byte) : Prop :=
  ∃ ds, text = (if v < 0 then 45 :: ds else ds) ∧ ds ≠ [] ∧ ds.all isDigit = true ∧
    (ds.head? = some 48 → v = 0 ∧ ds = [48])

theorem canonicalNumeral_toString (v : Int) : CanonicalNumeral v (ascii (toString v)) := by
  refine ⟨ascii (toString v.natAbs), ?_, toString_bytes_ne_nil _, isDigit_toString _, ?_⟩
  · split
    · next hneg => exact ascii_toString_neg hneg
    · next hneg => exact ascii_toString_nonneg (by omega)
  · intro hhead
    have hzero : v.natAbs = 0 := by
      by_contra hpos
      exact head_toString_ne (Nat.pos_of_ne_zero hpos) hhead
    refine ⟨by omega, ?_⟩
    rw [hzero]
    rfl

/-- **Integers are printed exactly.** For every integer type and every value of it, and a
    stream with the reserve, `format_integer` and the overload of `operator<<` return,
    so that no value has left its type and the table was read within its bounds. The
    canonical text became contents, at most 22 bytes were stored, all of them behind
    the contents, and the text reads as the value. -/
theorem formatInteger_exact (T : IntType) (v : Int) (hv : T.Holds v) (s : LogStream)
    (hroom : maxNumricSize ≤ s.avail) :
    ∃ t text, s.formatIntegerOf T v = .ok t ∧ s.insertInteger T v = .ok t ∧
      s.insert (.integer v) = .ok t ∧ text = ascii (toString v) ∧ CanonicalNumeral v text ∧
      readInteger text = some v ∧ t.records = s.records ++ [text] ∧
      t.cur = s.cur + text.length ∧ t.data = s.fill (text ++ [0]) ∧ (text ++ [0]).length ≤ 22 := by
  obtain ⟨hlow, hhigh⟩ := hv.bounds
  obtain ⟨t, ht, hdata, hcur, hrecords⟩ := LogStream.formatInteger_spec hroom hlow hhigh
  refine ⟨t, ascii (toString v), ?_, ?_, ht, rfl, canonicalNumeral_toString v,
    readInteger_toString v, hrecords, hcur, hdata, ?_⟩
  · rw [LogStream.formatIntegerOf_eq hv, ht]
  · rw [LogStream.insertInteger, LogStream.formatIntegerOf_eq hv.streamed, ht]
  · rw [List.length_append]
    exact LogStream.length_integer_text hlow hhigh

/-- The most negative `long`. -/
theorem formatInteger_exact_min :
    IntType.long.Holds (-9223372036854775808) ∧
      ∃ t, LogStream.insertInteger .long .zeroed (-9223372036854775808) = .ok t ∧
        t.records = [ascii "-9223372036854775808"] := by
  have hholds : IntType.long.Holds (-9223372036854775808) := by decide
  have hroom : maxNumricSize ≤ (FixedBuffer.zeroed : LogStream).avail := by
    change 48 ≤ 4000 - 0
    decide
  obtain ⟨t, text, _, ht, _, htext, _, _, hrecords, _⟩ :=
    formatInteger_exact .long (-9223372036854775808) hholds .zeroed hroom
  refine ⟨hholds, t, ht, ?_⟩
  rw [hrecords, htext]
  rfl

end DamnWebServer
