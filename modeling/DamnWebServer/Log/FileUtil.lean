import DamnWebServer.Base.Bytes

/-!
# The file of the log

`File_Util` (`base/log/file_util.h`, `base/log/file_util.cpp`). `append` calls
`fwrite_unlocked` until everything is written. What the calls return is given by a
sequence: each takes a number of bytes, and after each the error indicator may stand.
An error is reported and the loop goes on, so that a call that takes nothing is
simply made again.
-/

namespace DamnWebServer

/-- What a call of `fwrite_unlocked` does: it takes so many bytes, or all it is given if
    these are fewer. With the error indicator goes the text `get_errno_msg` has for it. -/
structure FwriteResult where
  count : Nat
  error : Option (List Byte)

/-- `File_Util`. -/
structure FileUtil where
  name : List Byte
  /-- The bytes that `fwrite` took. -/
  contents : List Byte
  writtenBytes : Nat
  /-- What was printed to `stderr`. -/
  reported : List Byte

/-- How much the first `n` calls take. -/
def written (results : Nat → FwriteResult) (n : Nat) : Nat :=
  ∑ i ∈ Finset.range n, (results i).count

/-- From some call on nothing is taken, and the bytes are not all written by then. -/
def Stuck (results : Nat → FwriteResult) (len : Nat) : Prop :=
  ∃ k, written results k < len ∧ ∀ i, k ≤ i → (results i).count = 0

namespace FileUtil

variable {f g : FileUtil} {results : Nat → FwriteResult} {data : List Byte}

/-- `File_Util(file_name)`. -/
def new (fileName : List Byte) : FileUtil where
  name := fileName
  contents := []
  writtenBytes := 0
  reported := []

/-- `write(data, len)`, and the number of bytes it took. -/
def write (f : FileUtil) (result : FwriteResult) (data : List Byte) : Nat × FileUtil :=
  (min result.count data.length, { f with contents := f.contents ++ data.take result.count })

/-- The message on `stderr` after a short write. -/
def report (f : FileUtil) (error : Option (List Byte)) : FileUtil :=
  match error with
  | some msg =>
    { f with reported := f.reported ++ ascii "FileUtil::append() failed " ++ msg ++ ascii "\n" }
  | none => f

/-- The loop of `append`, in front of call `i`. -/
def appendFrom (results : Nat → FwriteResult) (data : List Byte) :
    Nat → Nat → Nat → FileUtil → Except Fault FileUtil
  | 0, _, _, _ => .error .outOfFuel
  | fuel + 1, i, written, f =>
    if written ≠ data.length then
      let remain := data.length - written
      let (n, f) := f.write (results i) (data.drop written)
      let f := if n ≠ remain then f.report (results i).error else f
      appendFrom results data fuel (i + 1) (written + n) f
    else .ok { f with writtenBytes := f.writtenBytes + written }

/-- `append(data, len)`, within a number of rounds. -/
def append (results : Nat → FwriteResult) (fuel : Nat) (f : FileUtil) (data : List Byte) :
    Except Fault FileUtil :=
  appendFrom results data fuel 0 0 f

@[simp] theorem report_contents (f : FileUtil) (error : Option (List Byte)) :
    (f.report error).contents = f.contents := by
  cases error <;> rfl

@[simp] theorem report_writtenBytes (f : FileUtil) (error : Option (List Byte)) :
    (f.report error).writtenBytes = f.writtenBytes := by
  cases error <;> rfl

@[simp] theorem report_name (f : FileUtil) (error : Option (List Byte)) :
    (f.report error).name = f.name := by
  cases error <;> rfl

/-- The file with some bytes written to it. -/
structure Holds (f g : FileUtil) (bytes : List Byte) (len : Nat) : Prop where
  name : g.name = f.name
  contents : g.contents = f.contents ++ bytes
  writtenBytes : g.writtenBytes = f.writtenBytes + len

/-- A round of the loop. -/
theorem appendFrom_succ (results : Nat → FwriteResult) (f : FileUtil) (fuel i : Nat) {w : Nat}
    (h : w ≠ data.length) :
    ∃ f', Holds f f' ((data.drop w).take (results i).count) 0 ∧
      appendFrom results data (fuel + 1) i w f =
        appendFrom results data fuel (i + 1)
          (w + min (results i).count (data.length - w)) f' := by
  rw [appendFrom, if_pos h, write, List.length_drop]
  refine ⟨_, ?_, rfl⟩
  split <;> exact ⟨by simp, by simp, by simp⟩

/-- What is left is written, in order, once. -/
theorem appendFrom_ok {fuel i w : Nat} (hw : w ≤ data.length)
    (h : appendFrom results data fuel i w f = .ok g) :
    Holds f g (data.drop w) data.length := by
  induction fuel generalizing i w f with
  | zero => cases h
  | succ fuel ih =>
    by_cases hend : w = data.length
    · rw [appendFrom, if_neg (not_not.mpr hend)] at h
      cases h
      rw [hend, List.drop_length]
      exact ⟨rfl, (List.append_nil _).symm, rfl⟩
    · obtain ⟨f', hf', hround⟩ := appendFrom_succ results f fuel i hend
      rw [hround] at h
      have hrest := ih (by omega) h
      refine ⟨hrest.name.trans hf'.name, ?_, ?_⟩
      · have hsplit : (data.drop w).take (results i).count ++
            data.drop (w + min (results i).count (data.length - w)) = data.drop w := by
          rw [← List.drop_drop, ← List.length_drop, List.take_eq_take_min,
            List.take_append_drop]
        rw [hrest.contents, hf'.contents, List.append_assoc, hsplit]
      · rw [hrest.writtenBytes, hf'.writtenBytes, Nat.add_zero]

/-- The loop ends within its rounds if the calls take enough in fewer. -/
theorem appendFrom_returns_iff {fuel i w : Nat} (hw : w ≤ data.length) :
    (∃ g, appendFrom results data fuel i w f = .ok g) ↔
      ∃ n, n < fuel ∧ data.length ≤ w + written (fun j => results (i + j)) n := by
  induction fuel generalizing i w f with
  | zero =>
    constructor
    · rintro ⟨_, hg⟩
      cases hg
    · rintro ⟨n, hn, _⟩
      exact absurd hn (Nat.not_lt_zero n)
  | succ fuel ih =>
    by_cases hend : w = data.length
    · rw [appendFrom, if_neg (not_not.mpr hend)]
      exact ⟨fun _ => ⟨0, by omega, by omega⟩, fun _ => ⟨_, rfl⟩⟩
    · obtain ⟨f', _, hround⟩ := appendFrom_succ results f fuel i hend
      rw [hround, ih (by omega)]
      -- the first of the calls comes off the front of the sum
      have hsum : ∀ n, written (fun j => results (i + j)) (n + 1) =
          (results i).count + written (fun j => results (i + 1 + j)) n := by
        intro n
        rw [written, Finset.sum_range_succ', Nat.add_comm]
        simp only [written, Nat.add_zero, Nat.add_comm 1, Nat.add_assoc]
      constructor
      · rintro ⟨n, hn, hlen⟩
        refine ⟨n + 1, by omega, ?_⟩
        rw [hsum]
        omega
      · rintro ⟨n, hn, hlen⟩
        cases n with
        | zero =>
          rw [written, Finset.sum_range_zero] at hlen
          omega
        | succ n =>
          rw [hsum] at hlen
          by_cases hshort : (results i).count ≤ data.length - w
          · exact ⟨n, by omega, by omega⟩
          · exact ⟨0, by omega, by omega⟩

end FileUtil

theorem written_mono (results : Nat → FwriteResult) {m n : Nat} (h : m ≤ n) :
    written results m ≤ written results n :=
  Finset.sum_le_sum_of_subset (Finset.range_mono h)

/-- Calls that never take enough come to take nothing. -/
theorem eventually_nothing {results : Nat → FwriteResult} {len : Nat}
    (h : ∀ n, written results n < len) : ∃ k, ∀ i, k ≤ i → (results i).count = 0 := by
  induction len with
  | zero => exact absurd (h 0) (Nat.not_lt_zero _)
  | succ len ih =>
    by_cases hmax : ∃ k, written results k = len
    · -- nothing can be added to the greatest sum
      obtain ⟨k, hk⟩ := hmax
      refine ⟨k, fun i hi => ?_⟩
      have hle := written_mono results hi
      have hlt := h (i + 1)
      rw [written, Finset.sum_range_succ] at hlt
      change written results i + (results i).count < len + 1 at hlt
      omega
    · refine ih fun n => ?_
      have hlt := h n
      have hne : written results n ≠ len := fun heq => hmax ⟨n, heq⟩
      omega

theorem written_of_nothing {results : Nat → FwriteResult} {k : Nat}
    (h : ∀ i, k ≤ i → (results i).count = 0) (n : Nat) :
    written results n ≤ written results k := by
  induction n with
  | zero => exact written_mono results (Nat.zero_le k)
  | succ n ih =>
    by_cases hkn : k ≤ n
    · rw [written, Finset.sum_range_succ, h n hkn]
      exact ih
    · exact written_mono results (by omega)

theorem not_stuck_iff {results : Nat → FwriteResult} {len : Nat} :
    ¬Stuck results len ↔ ∃ n, len ≤ written results n := by
  constructor
  · intro hstuck
    by_contra hnone
    have hless : ∀ n, written results n < len := fun n =>
      Nat.lt_of_not_le fun hle => hnone ⟨n, hle⟩
    obtain ⟨k, hk⟩ := eventually_nothing hless
    exact hstuck ⟨k, hless k, hk⟩
  · rintro ⟨n, hn⟩ ⟨k, hlt, hnothing⟩
    have hle := written_of_nothing hnothing n
    omega

/-- Some number of rounds is enough. -/
theorem enough_rounds_iff {results : Nat → FwriteResult} {len : Nat} :
    (∃ fuel n, n < fuel ∧ len ≤ written results n) ↔ ¬Stuck results len := by
  rw [not_stuck_iff]
  constructor
  · rintro ⟨_, n, _, hn⟩
    exact ⟨n, hn⟩
  · rintro ⟨n, hn⟩
    exact ⟨n + 1, n, Nat.lt_succ_self n, hn⟩

namespace FileUtil

variable {f g : FileUtil} {results : Nat → FwriteResult} {data : List Byte}

theorem append_ok {fuel : Nat} (h : append results fuel f data = .ok g) :
    Holds f g data data.length :=
  appendFrom_ok (Nat.zero_le _) h

theorem append_returns_iff {fuel : Nat} :
    (∃ g, append results fuel f data = .ok g) ↔
      ∃ n, n < fuel ∧ data.length ≤ written results n := by
  rw [append, appendFrom_returns_iff (Nat.zero_le _)]
  simp only [Nat.zero_add]

/-- **`append` ends** unless the calls come to take nothing while bytes are left. -/
theorem append_ends_iff :
    (∃ fuel g, append results fuel f data = .ok g) ↔ ¬Stuck results data.length := by
  simp only [append_returns_iff]
  exact enough_rounds_iff

end FileUtil

end DamnWebServer
