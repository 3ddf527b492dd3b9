import Mathlib

/-!
# A family of queues and the entries of one owner

Several queues, each changed one at a time at its ends. `Queues.Holds q p i ts`
says where the entries with `p` are over the whole family: `ts` in the queue `i`
and none in any other. With a single entry this is a token that is handed from
queue to queue.
-/

namespace Queues

variable {ι τ : Type*} [DecidableEq ι] {q : ι → List τ} {p : τ → Bool} {i j : ι}
  {ts : List τ} {t : τ}

/-- The entries with `p` are `ts`, all in the queue `i`. -/
def Holds (q : ι → List τ) (p : τ → Bool) (i : ι) (ts : List τ) : Prop :=
  ∀ j, (q j).filter p = if j = i then ts else []

theorem Holds.here (h : Holds q p i ts) : (q i).filter p = ts := by
  rw [h i, if_pos rfl]

/-- A changed queue with the same entries of the owner. -/
theorem Holds.frame (h : Holds q p i ts) {xs : List τ} (hxs : xs.filter p = (q j).filter p) :
    Holds (Function.update q j xs) p i ts := by
  intro k
  by_cases hk : k = j
  · subst hk
    rw [Function.update_self, hxs, h k]
  · rw [Function.update_of_ne hk, h k]

/-- Nothing is nothing wherever it is looked for. -/
theorem Holds.nowhere (h : Holds q p i []) (j : ι) : Holds q p j [] := by
  intro k
  rw [h k, ite_self, ite_self]

theorem Holds.filter_eq_nil (h : Holds q p i []) (j : ι) : (q j).filter p = [] :=
  (h.nowhere j).here

/-- The owner's entries are put into one queue. -/
theorem Holds.put (h : Holds q p i []) {xs : List τ} (hxs : xs.filter p = ts) :
    Holds (Function.update q j xs) p j ts := by
  intro k
  by_cases hk : k = j
  · subst hk
    rw [Function.update_self, if_pos rfl, hxs]
  · rw [Function.update_of_ne hk, if_neg hk]
    exact h.filter_eq_nil k

theorem Holds.push (h : Holds q p i []) (hp : ts.filter p = ts) :
    Holds (Function.update q j (ts ++ q j)) p j ts := by
  refine h.put ?_
  rw [List.filter_append, h.filter_eq_nil, List.append_nil, hp]

theorem Holds.append (h : Holds q p i []) (hp : ts.filter p = ts) :
    Holds (Function.update q j (q j ++ ts)) p j ts := by
  refine h.put ?_
  rw [List.filter_append, h.filter_eq_nil, List.nil_append, hp]

/-- An entry of the owner at the head of a queue is its only entry. -/
theorem Holds.head (h : Holds q p i ts) {rest : List τ} (hj : q j = t :: rest) (hp : p t = true)
    (hlen : ts.length ≤ 1) : ts = [t] ∧ j = i ∧ Holds (Function.update q j rest) p i [] := by
  have hfilter : (q j).filter p = t :: rest.filter p := by
    rw [hj, List.filter_cons_of_pos hp]
  have hji : j = i := by
    by_contra hne
    rw [h j, if_neg hne] at hfilter
    cases hfilter
  subst hji
  rw [h.here] at hfilter
  have hrest : rest.filter p = [] := by
    rw [hfilter, List.length_cons] at hlen
    exact List.eq_nil_of_length_eq_zero (by omega)
  refine ⟨by rw [hfilter, hrest], rfl, ?_⟩
  intro k
  rw [ite_self]
  by_cases hk : k = j
  · subst hk
    rw [Function.update_self, hrest]
  · rw [Function.update_of_ne hk, h k, if_neg hk]

end Queues
