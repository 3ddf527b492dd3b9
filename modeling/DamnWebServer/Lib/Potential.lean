import DamnWebServer.Lib.Transition

/-!
# Runs that are paid for

A potential is a number that a state has saved. Every step costs something and
brings something in; if no step spends more than it brings and was saved, then no
run does. Steps that bring nothing in cannot go on for ever, so a system that only
stands still at rest comes to rest.
-/

namespace Transition

namespace System

variable {σ ℓ : Type*} {M : System σ ℓ} {I : σ → Prop} {s t : σ}

/-- **Potential rule.** What a run costs was saved at its start, or brought in on the way. -/
theorem Run.cost_le (potential : σ → Nat) {cost credit : ℓ → Nat} (hI : ∀ s l t, I s → M.step s l t → I t)
    (hstep : ∀ s l t, I s → M.step s l t → potential t + cost l ≤ potential s + credit l)
    {tr : List ℓ} (h : M.Run s tr t) (hs : I s) :
    potential t + (tr.map cost).sum ≤ potential s + (tr.map credit).sum := by
  induction h with
  | nil => exact le_rfl
  | @snoc tr t u l hrun hl ih =>
    have hlast := hstep t l u (hrun.invariant hI hs) hl
    simp only [List.map_append, List.sum_append, List.map_cons, List.map_nil, List.sum_cons,
      List.sum_nil]
    omega

/-- A cost of one for the steps of a kind counts them. -/
theorem sum_map_kind (kind : ℓ → Bool) (tr : List ℓ) :
    (tr.map fun l => if kind l then 1 else 0).sum = tr.countP kind := by
  induction tr with
  | nil => rfl
  | cons l tr ih => rw [List.map_cons, List.sum_cons, List.countP_cons, ih, Nat.add_comm]

/-- **Doubling rule.** What doubles at every step of a kind, and never shrinks, is at the end of
    a run as large as these steps make it. -/
theorem Run.two_pow_le (size : σ → Nat) {kind : ℓ → Bool} (hI : ∀ s l t, I s → M.step s l t → I t)
    (hstep : ∀ s l t, I s → M.step s l t → size s * 2 ^ (if kind l then 1 else 0) ≤ size t)
    {tr : List ℓ} (h : M.Run s tr t) (hs : I s) : size s * 2 ^ tr.countP kind ≤ size t := by
  induction h with
  | nil => exact (Nat.mul_one _).le
  | @snoc tr t u l hrun hl ih =>
    calc size s * 2 ^ (tr ++ [l]).countP kind
      _ = size s * 2 ^ tr.countP kind * 2 ^ (if kind l then 1 else 0) := by
        rw [List.countP_append, List.countP_singleton, Nat.pow_add, Nat.mul_assoc]
      _ ≤ size t * 2 ^ (if kind l then 1 else 0) := Nat.mul_le_mul_right _ ih
      _ ≤ size u := hstep t l u (hrun.invariant hI hs) hl

/-- **Rest rule.** If every state that is not at rest has an allowed step to a smaller
    potential, then every state comes to rest, within as many steps as it has saved. -/
theorem exists_rest (potential : σ → Nat) {rest : σ → Prop} {allowed : ℓ → Prop}
    (hnext : ∀ s, I s → ¬rest s → ∃ l t, allowed l ∧ M.step s l t ∧ I t ∧
      potential t < potential s) (hs : I s) :
    ∃ tr t, M.Run s tr t ∧ (∀ l ∈ tr, allowed l) ∧ tr.length ≤ potential s ∧ I t ∧ rest t := by
  generalize hn : potential s = n
  induction n using Nat.strong_induction_on generalizing s with
  | h n ih =>
    by_cases hrest : rest s
    · exact ⟨[], s, .nil, List.forall_mem_nil _, Nat.zero_le _, hs, hrest⟩
    · obtain ⟨l, u, hl, hstep, hu, hlt⟩ := hnext s hs hrest
      obtain ⟨tr, t, hrun, hall, hlen, ht, hat⟩ := ih (potential u) (hn ▸ hlt) hu rfl
      refine ⟨l :: tr, t, (Run.single hstep).append hrun, ?_, ?_, ht, hat⟩
      · exact List.forall_mem_cons.mpr ⟨hl, hall⟩
      · rw [List.length_cons]
        omega

end System

end Transition
