import Mathlib

/-!
# A queue that is served in turns

A turn takes some entries from the front and puts them at the back. Who is not served moves up
by the size of the turn; who joins stands behind, and who leaves lets the others move up. So
the place of an entry that waits never grows.
-/

namespace RoundRobin

variable {α : Type*} {q : List α} {x y : α} {k : Nat}

/-- The queue after a turn for `k` entries. -/
def serve (k : Nat) (q : List α) : List α := q.drop k ++ q.take k

theorem serve_perm (k : Nat) (q : List α) : (serve k q).Perm q :=
  List.perm_append_comm.trans (List.Perm.of_eq (List.take_append_drop k q))

@[simp] theorem mem_serve : x ∈ serve k q ↔ x ∈ q := (serve_perm k q).mem_iff

@[simp] theorem length_serve (k : Nat) (q : List α) : (serve k q).length = q.length :=
  (serve_perm k q).length_eq

theorem nodup_serve : (serve k q).Nodup ↔ q.Nodup := (serve_perm k q).nodup_iff

/-- Who is left out, is left out because the turn was full. -/
theorem lt_length_of_notMem_take (hx : x ∈ q) (h : x ∉ q.take k) : k < q.length := by
  by_contra hle
  rw [List.take_of_length_le (Nat.le_of_not_lt hle)] at h
  exact h hx

variable [DecidableEq α]

/-- Who is left out moves up. -/
theorem idxOf_serve (hx : x ∈ q) (h : x ∉ q.take k) : (serve k q).idxOf x + k = q.idxOf x := by
  have hlt := lt_length_of_notMem_take hx h
  have hdrop : x ∈ q.drop k := by
    rw [← List.take_append_drop k q, List.mem_append] at hx
    exact hx.resolve_left h
  have hwhole : q.idxOf x = (q.take k).length + (q.drop k).idxOf x := by
    conv_lhs => rw [← List.take_append_drop k q]
    exact List.idxOf_append_of_notMem h
  rw [serve, List.idxOf_append_of_mem hdrop, hwhole, List.length_take, Nat.min_eq_left hlt.le,
    Nat.add_comm]

/-- When another leaves, nobody moves down. -/
theorem idxOf_erase_le (hne : y ≠ x) (q : List α) : (q.erase y).idxOf x ≤ q.idxOf x := by
  induction q with
  | nil => exact le_rfl
  | cons a q ih =>
    by_cases hay : a = y
    · subst hay
      rw [List.erase_cons_head, List.idxOf_cons_ne q hne]
      exact Nat.le_succ _
    · rw [List.erase_cons_tail (by simpa using hay)]
      by_cases hax : a = x
      · subst hax
        rw [List.idxOf_cons_self]
        exact Nat.zero_le _
      · rw [List.idxOf_cons_ne _ hax, List.idxOf_cons_ne _ hax]
        exact Nat.succ_le_succ ih

end RoundRobin
