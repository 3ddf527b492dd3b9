import DamnWebServer.Base.Machine

/-!
# Bytes and byte strings

A `std::string` is a list of bytes, ordered as `std::char_traits<char>` compares
them: byte by byte, unsigned.
-/

namespace DamnWebServer

instance instLinearOrderUInt8 : LinearOrder UInt8 where
  le_refl := UInt8.le_refl
  le_trans _ _ _ := UInt8.le_trans
  le_antisymm _ _ := UInt8.le_antisymm
  le_total := UInt8.le_total
  lt_iff_le_not_ge _ _ := by
    rw [UInt8.lt_iff_toNat_lt, UInt8.le_iff_toNat_le, UInt8.le_iff_toNat_le]
    omega
  toDecidableLE := inferInstance

/-- A text of the source, which is ASCII throughout. -/
def ascii (s : String) : List Byte := s.toList.map fun c => c.toNat.toUInt8

/-- `isspace` of the C locale: blank, and tab to carriage return. -/
def isspace (b : Byte) : Bool := b = 32 ∨ 9 ≤ b ∧ b ≤ 13

/-- `std::find` for a byte: what stands before it and what stands after it. -/
def findByte (c : Byte) : List Byte → Option (List Byte × List Byte)
  | [] => none
  | b :: bs => if b = c then some ([], bs) else (findByte c bs).map fun r => (b :: r.1, r.2)

theorem findByte_eq_some {c : Byte} {bs before after : List Byte} :
    findByte c bs = some (before, after) ↔ bs = before ++ c :: after ∧ c ∉ before := by
  induction bs generalizing before with
  | nil => simp [findByte]
  | cons b bs ih =>
    rw [findByte]
    split
    · rename_i hb
      subst hb
      cases before with
      | nil => simp
      | cons d before =>
        simp only [Option.some.injEq, Prod.mk.injEq, List.cons_append, List.cons.injEq,
          List.mem_cons, not_or]
        constructor
        · rintro ⟨hnil, _⟩
          cases hnil
        · rintro ⟨⟨hbd, _⟩, hne, _⟩
          exact absurd hbd hne
    · rename_i hb
      cases before with
      | nil => simp [hb]
      | cons d before =>
        rw [Option.map_eq_some_iff]
        constructor
        · rintro ⟨⟨x, y⟩, hfind, heq⟩
          cases heq
          obtain ⟨rfl, hno⟩ := ih.mp hfind
          exact ⟨rfl, List.not_mem_cons_of_ne_of_not_mem (Ne.symm hb) hno⟩
        · rintro ⟨heq, hno⟩
          obtain ⟨rfl, hbs⟩ := List.cons.inj heq
          exact ⟨(before, after), ih.mpr ⟨hbs, fun h => hno (List.mem_cons_of_mem _ h)⟩, rfl⟩

/-- The first of a byte splits in one way only. -/
theorem append_cons_inj {c : Byte} {xs ys as bs : List Byte} (hxs : c ∉ xs) (hys : c ∉ ys)
    (h : xs ++ c :: as = ys ++ c :: bs) : xs = ys ∧ as = bs := by
  have hleft : findByte c (xs ++ c :: as) = some (xs, as) := findByte_eq_some.mpr ⟨rfl, hxs⟩
  have hright : findByte c (xs ++ c :: as) = some (ys, bs) := findByte_eq_some.mpr ⟨h, hys⟩
  rw [hleft, Option.some.injEq, Prod.mk.injEq] at hright
  exact hright

theorem findByte_eq_none {c : Byte} {bs : List Byte} : findByte c bs = none ↔ c ∉ bs := by
  induction bs with
  | nil => simp [findByte]
  | cons b bs ih =>
    rw [findByte]
    split
    · rename_i hb
      simp [hb]
    · rename_i hb
      simp [ih, Ne.symm hb]

end DamnWebServer
