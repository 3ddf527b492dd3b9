import Mathlib

/-!
# Machine values and failures

The fixed-width conversions the program relies on, the ways a modelled
operation can go wrong, and the error numbers the program tells apart.
-/

namespace DamnWebServer

/-- One `char` of a `std::vector<char>` or a `std::string`. -/
abbrev Byte := UInt8

/-- How an operation of the program can fail to return. -/
inductive Fault where
  /-- A failed `assert`, with the text of its condition. -/
  | assertion (condition : String)
  /-- A copy whose source or target leaves the vector, or whose target begins
      inside its source. -/
  | badCopy
  /-- `std::vector::resize` past `max_size()` throws `std::length_error`. -/
  | lengthError
  /-- An object is used or deleted after its deletion. -/
  | dangling
  /-- A signed integer leaves its range. -/
  | overflow
  /-- A null pointer is dereferenced. -/
  | nullPointer
  /-- `back()` or `pop_back()` of an empty vector. -/
  | emptyVector
  /-- A function that returns a value runs off its end. -/
  | noReturn
  /-- The loop did not end within the steps granted to it. -/
  | outOfFuel
  deriving DecidableEq, Repr

/-- The values of `errno` the program distinguishes. -/
inductive Errno where
  | ewouldblock | epipe | econnreset | emfile
  | other (code : Nat)
  deriving DecidableEq, Repr

/-- `assert(b)`. -/
def require (b : Bool) (condition : String) : Except Fault Unit :=
  if b then .ok () else .error (.assertion condition)

/-- A 64-bit `size_t`: the value modulo `2^64`. -/
def sizeT (n : Int) : Nat := (n % 2 ^ 64).toNat

/-- Conversion of a `size_t` to a 32-bit `int` parameter. -/
def toInt (n : Nat) : Int :=
  if n % 2 ^ 32 < 2 ^ 31 then (n % 2 ^ 32 : Nat) else (n % 2 ^ 32 : Nat) - 2 ^ 32

/-- `std::vector<char>::max_size()`. -/
def maxSize : Nat := 2 ^ 63 - 1

theorem sizeT_of_lt {n : Nat} (h : n < 2 ^ 64) : sizeT n = n := by
  unfold sizeT
  omega

theorem sizeT_sub {a b : Nat} (hab : b ≤ a) (ha : a < 2 ^ 64) :
    sizeT ((a : Int) - b) = a - b := by
  unfold sizeT
  omega

theorem toInt_of_lt {n : Nat} (h : n < 2 ^ 31) : toInt n = n := by
  unfold toInt
  split <;> omega

@[simp] theorem require_true (c : String) : require true c = .ok () := rfl

theorem eq_ok_of_toOption {α : Type} {x : Except Fault α} {a : α} (h : x.toOption = some a) :
    x = .ok a := by
  cases x with
  | error e => cases h
  | ok b =>
    cases h
    rfl

/-- A sequence that returns: both parts have. -/
theorem bind_eq_ok {α β : Type} {x : Except Fault α} {f : α → Except Fault β} {b : β}
    (h : x >>= f = .ok b) : ∃ a, x = .ok a ∧ f a = .ok b := by
  cases x with
  | error e => cases h
  | ok a => exact ⟨a, rfl, h⟩

/-- The operation returns a value with `P`, or throws `std::length_error` where
    `full` holds. No other failure is possible. -/
def ReturnsUnless {α : Type} (full : Prop) (x : Except Fault α) (P : α → Prop) : Prop :=
  (∃ a, x = .ok a ∧ P a) ∨ (x = .error .lengthError ∧ full)

theorem ReturnsUnless.of_ok {α : Type} {full : Prop} {P : α → Prop} {a : α} (h : P a) :
    ReturnsUnless full (.ok a) P :=
  Or.inl ⟨a, rfl, h⟩

/-- Sequencing: the second part may rely on what the first returned. -/
theorem ReturnsUnless.bind {α β : Type} {full : Prop} {x : Except Fault α}
    {f : α → Except Fault β} {P : α → Prop} {Q : β → Prop}
    (hx : ReturnsUnless full x P) (hf : ∀ a, P a → ReturnsUnless full (f a) Q) :
    ReturnsUnless full (x >>= f) Q := by
  rcases hx with ⟨a, rfl, ha⟩ | ⟨rfl, hfull⟩
  · exact hf a ha
  · exact Or.inr ⟨rfl, hfull⟩

theorem ReturnsUnless.imp {α : Type} {full full' : Prop} {x : Except Fault α}
    {P Q : α → Prop} (hx : ReturnsUnless full x P) (hfull : full → full')
    (hPQ : ∀ a, P a → Q a) : ReturnsUnless full' x Q := by
  rcases hx with ⟨a, ha, hp⟩ | ⟨he, hf⟩
  · exact Or.inl ⟨a, ha, hPQ a hp⟩
  · exact Or.inr ⟨he, hfull hf⟩

/-- What a computation that did return has returned. -/
theorem ReturnsUnless.of_eq_ok {α : Type} {full : Prop} {x : Except Fault α}
    {P : α → Prop} {a : α} (hx : ReturnsUnless full x P) (h : x = .ok a) : P a := by
  rcases hx with ⟨b, hb, hp⟩ | ⟨he, _⟩
  · rw [h] at hb
    cases hb
    exact hp
  · rw [h] at he
    cases he

/-- No assertion fails, and a value that is returned has `P`. -/
def Passes {α : Type} (x : Except Fault α) (P : α → Prop) : Prop :=
  match x with
  | .ok a => P a
  | .error f => ∀ c, f ≠ .assertion c

theorem Passes.bind {α β : Type} {x : Except Fault α} {f : α → Except Fault β} {P : α → Prop}
    {Q : β → Prop} (hx : Passes x P) (hf : ∀ a, P a → Passes (f a) Q) : Passes (x >>= f) Q := by
  cases x with
  | ok a => exact hf a hx
  | error e => exact hx

theorem Passes.imp {α : Type} {x : Except Fault α} {P Q : α → Prop} (hx : Passes x P)
    (hPQ : ∀ a, P a → Q a) : Passes x Q := by
  cases x with
  | ok a => exact hPQ a hx
  | error e => exact hx

theorem Passes.of_eq_ok {α : Type} {x : Except Fault α} {P : α → Prop} {a : α} (hx : Passes x P)
    (h : x = .ok a) : P a := by
  rw [h] at hx
  exact hx

end DamnWebServer
