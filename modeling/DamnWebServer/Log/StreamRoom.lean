import DamnWebServer.Log.IntegerText

/-!
# Room in the log stream

Texts want one byte more than they take, numbers a reserve of 48 bytes, and what does
not fit is left out as a whole. `LogArg.level` follows the cursor through this without
any array. Only `operator<<(double)` has no `return` where the reserve is missing.
-/

namespace DamnWebServer

namespace LogArg

/-- The complete text of an argument. -/
def text : LogArg → List Byte
  | .bool v => if v then ascii "1" else ascii "0"
  | .integer v => ascii (toString v)
  | .double v => v.text
  | .char v => [v]
  | .cstring (some str) => str
  | .cstring none => ascii "(null)"
  | .string v => v
  | .buffer v => v.slice
  | .template data len => data.take len.toNat

/-- The arguments other than buffers: an integer is the value of some integer type, and a
    template has a length, which the object has. -/
def Valid : LogArg → Prop
  | .integer v => ∃ T : IntType, T.Holds v
  | .template data len => 0 ≤ len ∧ len < 2 ^ 31 ∧ len ≤ data.length
  | .buffer _ => False
  | .bool _ | .double _ | .char _ | .cstring _ | .string _ => True

/-- A `double`, or a `float`, which is cast to one. -/
def isDouble : LogArg → Bool
  | .double _ => true
  | _ => false

/-- The bytes that have to be free for the argument to be taken. -/
def need : LogArg → Nat
  | .integer _ | .double _ => maxNumricSize
  | arg => arg.text.length + 1

/-- The cursor behind an argument. -/
def level (n : Nat) (arg : LogArg) : Nat :=
  if arg.need ≤ smallBufferSize - n then n + arg.text.length else n

/-- Every `double` of the arguments comes when the reserve is there. -/
def DoublesFit : Nat → List LogArg → Prop
  | _, [] => True
  | n, arg :: args =>
    (arg.isDouble = true → arg.need ≤ smallBufferSize - n) ∧ DoublesFit (arg.level n) args

end LogArg

namespace LogStream

variable {s t : LogStream} {arg : LogArg}

/-- The call took the argument as a whole, or it left the stream as it was. -/
def TookOrLeft (s t : LogStream) (arg : LogArg) : Prop :=
  (arg.need ≤ s.avail ∧ t.cur = s.cur + arg.text.length ∧ t.records = s.records ++ [arg.text]) ∨
    (¬arg.need ≤ s.avail ∧ t = s)

theorem append_took {bytes : List Byte} (htext : arg.text = bytes)
    (hneed : arg.need = bytes.length + 1) : TookOrLeft s (s.append bytes) arg := by
  by_cases hroom : bytes.length < s.avail
  · refine .inl ⟨by omega, ?_, ?_⟩
    · rw [FixedBuffer.append, dif_pos hroom, htext]
    · rw [FixedBuffer.append_records hroom, htext]
  · exact .inr ⟨by omega, FixedBuffer.append_dropped hroom⟩

theorem formatInteger_took {v : Int} (hlow : -2 ^ 63 ≤ v) (hhigh : v < 2 ^ 64) :
    ∃ t, s.formatInteger v = .ok t ∧ TookOrLeft s t (.integer v) := by
  by_cases hroom : maxNumricSize ≤ s.avail
  · obtain ⟨t, ht, _, hcur, hrecords⟩ := formatInteger_spec hroom hlow hhigh
    exact ⟨t, ht, .inl ⟨hroom, hcur, hrecords⟩⟩
  · exact ⟨s, formatInteger_dropped hroom, .inr ⟨hroom, rfl⟩⟩

/-- With the reserve, `snprintf` has room for the text and the terminator. -/
theorem formatDouble_took {v : DoubleText} (hroom : maxNumricSize ≤ s.avail) :
    ∃ t, s.formatDouble v = .ok t ∧ TookOrLeft s t (.double v) := by
  have hlen := v.length_le
  have hwhole : v.text.take (maxNumricSize - 1) = v.text :=
    List.take_of_length_le (by unfold maxNumricSize; omega)
  have hfits : s.cur + (v.text ++ [0]).length ≤ smallBufferSize := by
    unfold maxNumricSize FixedBuffer.avail at hroom
    rw [List.length_append, List.length_singleton]
    omega
  obtain ⟨t, ht, htdata, htcur, htrecords⟩ := FixedBuffer.store_of_le hfits
  obtain ⟨u, hu, _, hucur, hurecords⟩ :=
    FixedBuffer.add_of_le htdata htcur htrecords v.text.length (by simp) hfits
  refine ⟨u, ?_, ?_⟩
  · rw [formatDouble, if_pos hroom, hwhole, ht]
    exact hu
  · rw [List.take_left' rfl] at hurecords
    exact .inl ⟨hroom, hucur, hurecords⟩

/-- The `return` stands inside the `if`. -/
theorem formatDouble_noReturn {v : DoubleText} (hroom : ¬maxNumricSize ≤ s.avail) :
    s.formatDouble v = .error .noReturn :=
  if_neg hroom

theorem appendTemplate_took {data : List Byte} {len : Int} (hvalid : (LogArg.template data len).Valid) :
    ∃ t, s.appendTemplate data len = .ok t ∧ TookOrLeft s t (.template data len) := by
  obtain ⟨hnonneg, hint, hlen⟩ := hvalid
  have hsize : sizeT len = len.toNat := by
    unfold sizeT
    omega
  have htake : (data.take len.toNat).length = len.toNat := by
    rw [List.length_take]
    omega
  by_cases hroom : len.toNat < s.avail
  · refine ⟨s.append (data.take len.toNat), ?_, append_took rfl rfl⟩
    rw [appendTemplate, hsize, if_pos hroom, if_pos (by omega)]
  · refine ⟨s, ?_, .inr ⟨?_, rfl⟩⟩
    · rw [appendTemplate, hsize, if_neg hroom]
    · change ¬(data.take len.toNat).length < s.avail
      rwa [htake]

/-- **One call.** It returns, and takes the argument or leaves it, unless it is a `double`
    without its reserve. -/
theorem insert_took (hvalid : arg.Valid) (hdouble : arg.isDouble = true → arg.need ≤ s.avail) :
    ∃ t, s.insert arg = .ok t ∧ TookOrLeft s t arg := by
  cases arg with
  | bool v => exact ⟨_, rfl, append_took rfl rfl⟩
  | integer v =>
    obtain ⟨T, hv⟩ := hvalid
    exact formatInteger_took hv.bounds.1 hv.bounds.2
  | double v => exact formatDouble_took (hdouble rfl)
  | char v => exact ⟨_, rfl, append_took rfl rfl⟩
  | cstring str =>
    cases str with
    | some str => exact ⟨_, rfl, append_took rfl rfl⟩
    | none => exact ⟨_, rfl, append_took rfl rfl⟩
  | string v => exact ⟨_, rfl, append_took rfl rfl⟩
  | buffer v => exact absurd hvalid id
  | template data len => exact appendTemplate_took hvalid

theorem insert_noReturn (hdouble : arg.isDouble = true) (hroom : ¬arg.need ≤ s.avail) :
    s.insert arg = .error .noReturn := by
  cases arg with
  | double v => exact formatDouble_noReturn hroom
  | bool | integer | char | cstring | string | buffer | template => cases hdouble

/-- The cursor goes where the level says. -/
theorem TookOrLeft.cur_eq (h : TookOrLeft s t arg) : t.cur = arg.level s.cur := by
  rcases h with ⟨hroom, hcur, _⟩ | ⟨hroom, rfl⟩
  · exact hcur.trans (if_pos hroom).symm
  · exact (if_neg hroom).symm

/-- The call appended the complete text, or left the contents and the cursor. -/
def AllOrNothing (s t : LogStream) (arg : LogArg) : Prop :=
  (t.data.take t.cur = s.data.take s.cur ++ arg.text ∧ t.cur = s.cur + arg.text.length) ∨
    (t.data.take t.cur = s.data.take s.cur ∧ t.cur = s.cur)

theorem TookOrLeft.allOrNothing (h : TookOrLeft s t arg) : AllOrNothing s t arg := by
  rcases h with ⟨_, hcur, hrecords⟩ | ⟨_, rfl⟩
  · refine .inl ⟨?_, hcur⟩
    rw [t.contents, s.contents, hrecords, List.flatten_append, List.flatten_singleton]
  · exact .inr ⟨rfl, rfl⟩

/-- Every call of a sequence returns the stream, takes all of its argument or nothing,
    and leaves the cursor within the array. A store outside of it is a fault. -/
def EveryCall : LogStream → List LogArg → Prop
  | _, [] => True
  | s, arg :: args =>
    ∃ t, s.insert arg = .ok t ∧ AllOrNothing s t arg ∧ t.cur ≤ smallBufferSize ∧ EveryCall t args

/-- **Streaming is all or nothing** in exactly those sequences of calls in which every
    `double` finds its reserve. -/
theorem everyCall_iff (s : LogStream) (args : List LogArg) (hvalid : ∀ arg ∈ args, arg.Valid) :
    EveryCall s args ↔ LogArg.DoublesFit s.cur args := by
  induction args generalizing s with
  | nil => exact Iff.rfl
  | cons arg args ih =>
    have hrest := fun b hb => hvalid b (List.mem_cons_of_mem arg hb)
    constructor
    · rintro ⟨t, ht, _, _, hcalls⟩
      -- a call that returned was no `double` without its reserve
      have hdouble : arg.isDouble = true → arg.need ≤ s.avail := by
        intro hdouble
        by_contra hroom
        rw [insert_noReturn hdouble hroom] at ht
        cases ht
      obtain ⟨u, hu, htook⟩ := insert_took (hvalid arg List.mem_cons_self) hdouble
      cases ht.symm.trans hu
      refine ⟨hdouble, ?_⟩
      rw [← htook.cur_eq]
      exact (ih t hrest).mp hcalls
    · rintro ⟨hdouble, hfit⟩
      obtain ⟨t, ht, htook⟩ := insert_took (hvalid arg List.mem_cons_self) hdouble
      rw [← htook.cur_eq] at hfit
      exact ⟨t, ht, htook.allOrNothing, t.cur_le, (ih t hrest).mpr hfit⟩

/-- `1.5`. -/
def sampleDouble : DoubleText where
  text := ascii "1.5"
  length_le := by decide

/-- A text of any kind before and after the number. -/
theorem everyCall_sample :
    EveryCall .zeroed [.string (ascii "load "), .double sampleDouble, .integer (-3), .char 10] := by
  have hvalid : ∀ arg ∈ [LogArg.string (ascii "load "), .double sampleDouble, .integer (-3),
      .char 10], arg.Valid := by
    intro arg harg
    simp only [List.mem_cons, List.not_mem_nil, or_false] at harg
    rcases harg with rfl | rfl | rfl | rfl
    · trivial
    · trivial
    · exact ⟨.int, by decide⟩
    · trivial
  refine (everyCall_iff _ _ hvalid).mpr ⟨?_, ?_, ?_, ?_, trivial⟩ <;> intro hdouble
  · cases hdouble
  · decide
  · cases hdouble
  · cases hdouble

/-- 3960 bytes and then a `double`. -/
theorem everyCall_double_at_end :
    ¬∀ (s : LogStream) (args : List LogArg), (∀ arg ∈ args, arg.Valid) → EveryCall s args := by
  intro hall
  obtain ⟨text, hlen⟩ : ∃ text : List Byte, text.length = 3960 :=
    ⟨List.replicate 3960 65, List.length_replicate⟩
  have hvalid : ∀ arg ∈ [LogArg.string text, .double sampleDouble], arg.Valid := by
    intro arg harg
    simp only [List.mem_cons, List.not_mem_nil, or_false] at harg
    rcases harg with rfl | rfl <;> trivial
  obtain ⟨t, ht, _, _, u, hu, _⟩ := hall .zeroed _ hvalid
  obtain ⟨t', ht', htook⟩ := insert_took (s := .zeroed) (hvalid _ List.mem_cons_self)
    fun hdouble => absurd hdouble Bool.false_ne_true
  cases ht.symm.trans ht'
  have hcur : t.cur = 3960 := by
    rw [htook.cur_eq]
    change (if text.length + 1 ≤ 4000 - 0 then 0 + text.length else 0) = 3960
    rw [hlen]
    decide
  have hroom : ¬(LogArg.double sampleDouble).need ≤ t.avail := by
    rw [FixedBuffer.avail, hcur]
    decide
  rw [insert_noReturn rfl hroom] at hu
  cases hu

end LogStream

end DamnWebServer
