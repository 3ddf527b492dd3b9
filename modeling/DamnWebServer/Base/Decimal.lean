import DamnWebServer.Base.Bytes

/-!
# Decimal numbers

Numbers as `printf` prints them and as a reader takes them: the digits of a natural
number, the last one coming off the end, fields of a fixed width, and numerals with a
sign.
-/

namespace DamnWebServer

def isDigit (b : Byte) : Bool := 48 ≤ b ∧ b ≤ 57

/-- A number in decimal digits, at least one. -/
def readDecimal (bs : List Byte) : Option Nat :=
  if bs ≠ [] ∧ bs.all isDigit then some (bs.foldl (fun n b => 10 * n + (b.toNat - 48)) 0) else none

theorem digit_toByte {c : Char} (h : c.isDigit = true) :
    c.toNat.toUInt8.toNat = c.toNat ∧ isDigit c.toNat.toUInt8 = true := by
  have hrange : 48 ≤ c.toNat ∧ c.toNat ≤ 57 := by
    simpa [Char.isDigit, UInt32.le_iff_toNat_le] using h
  have hnat : c.toNat.toUInt8.toNat = c.toNat := by
    change c.toNat % 2 ^ 8 = c.toNat
    omega
  refine ⟨hnat, ?_⟩
  rw [isDigit, decide_eq_true_iff, UInt8.le_iff_toNat_le, UInt8.le_iff_toNat_le, hnat]
  exact hrange

theorem ascii_toString (n : Nat) :
    ascii (toString n) = (Nat.toDigits 10 n).map fun c => c.toNat.toUInt8 := by
  rw [ascii, Nat.toString_eq_repr, Nat.toList_repr]

theorem isDigit_toString (n : Nat) : (ascii (toString n)).all isDigit = true := by
  rw [ascii_toString, List.all_map, List.all_eq_true]
  intro c hc
  exact (digit_toByte (Nat.isDigit_of_mem_toDigits (by decide) (by decide) hc)).2

theorem toString_bytes_ne_nil (n : Nat) : ascii (toString n) ≠ [] := by
  rw [ascii_toString]
  simp [Nat.toDigits_ne_nil]

/-- A printed number can be read. -/
theorem readDecimal_toString (n : Nat) : readDecimal (ascii (toString n)) = some n := by
  have hfold : ∀ (cs : List Char) (k : Nat), (∀ c ∈ cs, c.isDigit = true) →
      (cs.map fun c => c.toNat.toUInt8).foldl (fun n b => 10 * n + (b.toNat - 48)) k =
        Nat.ofDigitChars 10 cs k := by
    intro cs
    induction cs with
    | nil => intro k _; rfl
    | cons c cs ih =>
      intro k hcs
      rw [List.map_cons, List.foldl_cons, Nat.ofDigitChars_cons,
        (digit_toByte (hcs c List.mem_cons_self)).1]
      exact ih _ fun d hd => hcs d (List.mem_cons_of_mem c hd)
  rw [readDecimal, if_pos ⟨toString_bytes_ne_nil n, isDigit_toString n⟩, ascii_toString,
    hfold _ _ fun c hc => Nat.isDigit_of_mem_toDigits (by decide) (by decide) hc,
    Nat.ofDigitChars_ten_toDigits]

theorem length_toString_le {n k : Nat} (hk : 0 < k) (h : n < 10 ^ k) :
    (ascii (toString n)).length ≤ k := by
  rw [ascii_toString, List.length_map]
  exact (Nat.length_toDigits_le_iff (by decide) hk).mpr h

/-- Two numbers with the same digits are the same. -/
theorem toString_bytes_injective {m n : Nat} (h : ascii (toString m) = ascii (toString n)) :
    m = n := by
  have hread := readDecimal_toString m
  rw [h, readDecimal_toString] at hread
  exact (Option.some.inj hread).symm

/-- The character of a digit. -/
def digitByte (d : Nat) : Byte := (48 + d).toUInt8

theorem ascii_toString_of_lt {n : Nat} (h : n < 10) : ascii (toString n) = [digitByte n] := by
  interval_cases n <;> rfl

/-- The last digit comes off the end. -/
theorem ascii_toString_of_le {n : Nat} (h : 10 ≤ n) :
    ascii (toString n) = ascii (toString (n / 10)) ++ [digitByte (n % 10)] := by
  have hlast : ascii (toString (n % 10)) = [digitByte (n % 10)] :=
    ascii_toString_of_lt (Nat.mod_lt n (by decide))
  rw [ascii_toString, Nat.toDigits_of_base_le (by decide) h, List.map_append, ← ascii_toString,
    ← hlast, ascii_toString (n % 10), Nat.toDigits_of_lt_base (Nat.mod_lt n (by decide))]

/-- No zero stands in front of a positive number. -/
theorem head_toString_ne {n : Nat} (h : 0 < n) : (ascii (toString n)).head? ≠ some 48 := by
  induction n using Nat.strongRecOn with
  | ind n ih =>
    by_cases hlt : n < 10
    · rw [ascii_toString_of_lt hlt]
      interval_cases n <;> decide
    · have hle : 10 ≤ n := by omega
      rw [ascii_toString_of_le hle, List.head?_append_of_ne_nil _ (toString_bytes_ne_nil _)]
      exact ih (n / 10) (by omega) (by omega)

-- ════════════════════════════════════════════════════════════════════════
-- Signs
-- ════════════════════════════════════════════════════════════════════════

/-- A decimal numeral, with a minus sign in front of a negative one. -/
def readInteger : List Byte → Option Int
  | 45 :: ds => (readDecimal ds).map fun n : Nat => -(n : Int)
  | ds => (readDecimal ds).map Int.ofNat

theorem ascii_toString_neg {v : Int} (h : v < 0) :
    ascii (toString v) = 45 :: ascii (toString v.natAbs) := by
  cases v with
  | ofNat n => exact absurd h (by simp)
  | negSucc n => simp [ascii, toString, Int.repr]

theorem ascii_toString_nonneg {v : Int} (h : 0 ≤ v) :
    ascii (toString v) = ascii (toString v.natAbs) := by
  cases v with
  | ofNat n => rfl
  | negSucc n => exact absurd h (by simp)

/-- No digit is a minus sign. -/
theorem minus_notMem_toString (n : Nat) : 45 ∉ ascii (toString n) := by
  intro hmem
  have hdigit := List.all_eq_true.mp (isDigit_toString n) 45 hmem
  exact absurd hdigit (by decide)

/-- A printed integer can be read. -/
theorem readInteger_toString (v : Int) : readInteger (ascii (toString v)) = some v := by
  by_cases h : v < 0
  · rw [ascii_toString_neg h, readInteger, readDecimal_toString, Option.map_some]
    congr 1
    omega
  · rw [ascii_toString_nonneg (by omega), readInteger.eq_2, readDecimal_toString, Option.map_some]
    · exact congrArg some (Int.natAbs_of_nonneg (by omega))
    · intro ds hds
      refine minus_notMem_toString v.natAbs ?_
      rw [hds]
      exact List.mem_cons_self

-- ════════════════════════════════════════════════════════════════════════
-- Fields of a fixed width
-- ════════════════════════════════════════════════════════════════════════

/-- `%d` with a width, padded by `fill`. -/
def paddedDecimal (fill : Byte) (width n : Nat) : List Byte :=
  List.replicate (width - (ascii (toString n)).length) fill ++ ascii (toString n)

theorem length_paddedDecimal {fill : Byte} {width n : Nat} (hpos : 0 < width)
    (h : n < 10 ^ width) : (paddedDecimal fill width n).length = width := by
  have hlen := length_toString_le hpos h
  rw [paddedDecimal, List.length_append, List.length_replicate]
  omega

theorem length_paddedDecimal_le {fill : Byte} {width n k : Nat} (hpos : 0 < k) (hle : width ≤ k)
    (h : n < 10 ^ k) : (paddedDecimal fill width n).length ≤ k := by
  have hlen := length_toString_le hpos h
  rw [paddedDecimal, List.length_append, List.length_replicate]
  omega

/-- Leading zeros do not change the number that is read. -/
theorem readDecimal_paddedDecimal (width n : Nat) :
    readDecimal (paddedDecimal 48 width n) = some n := by
  have hzeros : ∀ (k : Nat) (bs : List Byte),
      (List.replicate k 48 ++ bs).foldl (fun (n : Nat) (b : Byte) => 10 * n + (b.toNat - 48)) 0 =
        bs.foldl (fun n b => 10 * n + (b.toNat - 48)) 0 := by
    intro k bs
    induction k with
    | zero => rfl
    | succ k ih => exact ih
  have hne : paddedDecimal 48 width n ≠ [] := by
    intro hnil
    exact toString_bytes_ne_nil n (List.append_eq_nil_iff.mp hnil).2
  have hall : (paddedDecimal 48 width n).all isDigit = true := by
    rw [paddedDecimal, List.all_append, isDigit_toString, List.all_replicate]
    simp [isDigit]
  have hread := readDecimal_toString n
  rw [readDecimal, if_pos ⟨toString_bytes_ne_nil n, isDigit_toString n⟩] at hread
  rw [readDecimal, if_pos ⟨hne, hall⟩, paddedDecimal, hzeros]
  exact hread

theorem paddedDecimal_injective {width m n : Nat}
    (h : paddedDecimal 48 width m = paddedDecimal 48 width n) : m = n := by
  have hread := readDecimal_paddedDecimal width m
  rw [h, readDecimal_paddedDecimal] at hread
  exact (Option.some.inj hread).symm

/-- A field that its number fits can be told from what follows. -/
theorem paddedDecimal_append_inj {width m n : Nat} {xs ys : List Byte} (hpos : 0 < width)
    (hm : m < 10 ^ width) (hn : n < 10 ^ width)
    (h : paddedDecimal 48 width m ++ xs = paddedDecimal 48 width n ++ ys) : m = n ∧ xs = ys := by
  have hlen : (paddedDecimal 48 width m).length = (paddedDecimal 48 width n).length := by
    rw [length_paddedDecimal hpos hm, length_paddedDecimal hpos hn]
  obtain ⟨hfield, hrest⟩ := List.append_inj h hlen
  exact ⟨paddedDecimal_injective hfield, hrest⟩

theorem lt_length_toString {n k : Nat} (hk : 0 < k) (h : 10 ^ k ≤ n) :
    k < (ascii (toString n)).length := by
  rw [ascii_toString, List.length_map]
  by_contra hle
  have hlt := (Nat.length_toDigits_le_iff (b := 10) (n := n) (by decide) hk).mp (by omega)
  omega

theorem paddedDecimal_of_length_le {fill : Byte} {width n : Nat}
    (h : width ≤ (ascii (toString n)).length) : paddedDecimal fill width n = ascii (toString n) := by
  rw [paddedDecimal, Nat.sub_eq_zero_of_le h]
  rfl

/-- `%0wd`: the zeros stand behind the sign. -/
def paddedInteger (width : Nat) (v : Int) : List Byte :=
  if v < 0 then 45 :: paddedDecimal 48 (width - 1) v.natAbs else paddedDecimal 48 width v.natAbs

theorem paddedInteger_natCast (width n : Nat) : paddedInteger width n = paddedDecimal 48 width n := by
  rw [paddedInteger, if_neg (by omega), Int.natAbs_natCast]

end DamnWebServer
