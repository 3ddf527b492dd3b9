import Mathlib

/-!
# Labelled transition systems

A system is a set of initial states and a labelled step relation. Runs carry
the list of their labels, oldest first, so that a property may speak about the
calls made so far. The rules below are the ones a verification uses: an
invariant of every reachable state, a property of a state together with the
labels that led to it, a relation between any two points of one run, and
forward simulation, step by step or by whole runs.

## Main definitions

- `Transition.System` — initial states and steps
- `Transition.System.Run` — a finite run with its labels
- `Transition.System.Reachable` — the states of all runs
- `Transition.System.restrict` — the runs whose steps all meet a condition
- `Transition.Simulation` — forward simulation between two systems
- `Transition.WeakSimulation` — simulation by runs that look the same
-/

namespace Transition

/-- Initial states and labelled steps. -/
structure System (σ ℓ : Type*) where
  init : σ → Prop
  step : σ → ℓ → σ → Prop

variable {σ τ ℓ : Type*}

namespace System

/-- A finite run from `s`, labels oldest first. The run grows at its end, so
    induction on it peels off the last step. -/
inductive Run (M : System σ ℓ) (s : σ) : List ℓ → σ → Prop where
  | nil : Run M s [] s
  | snoc {tr : List ℓ} {t u : σ} {l : ℓ} :
      Run M s tr t → M.step t l u → Run M s (tr ++ [l]) u

/-- The states of the runs that start in an initial state. -/
def Reachable (M : System σ ℓ) (s : σ) : Prop :=
  ∃ s₀ tr, M.init s₀ ∧ M.Run s₀ tr s

/-- The same system with only the steps that `P` allows in the state before
    the step. -/
def restrict (M : System σ ℓ) (P : σ → ℓ → Prop) : System σ ℓ where
  init := M.init
  step s l t := P s l ∧ M.step s l t

/-- The system of a guard and an effect. -/
def guarded (init : σ → Prop) (enabled : σ → ℓ → Prop) (perform : σ → ℓ → σ) : System σ ℓ where
  init := init
  step s l t := enabled s l ∧ perform s l = t

/-- Every label of the list is enabled in its turn. -/
def Allowed (enabled : σ → ℓ → Prop) (perform : σ → ℓ → σ) : σ → List ℓ → Prop
  | _, [] => True
  | s, l :: tr => enabled s l ∧ Allowed enabled perform (perform s l) tr

instance decidableAllowed (enabled : σ → ℓ → Prop) (perform : σ → ℓ → σ)
    [∀ s l, Decidable (enabled s l)] : ∀ s tr, Decidable (Allowed enabled perform s tr)
  | _, [] => .isTrue trivial
  | s, l :: tr =>
    have := decidableAllowed enabled perform (perform s l) tr
    inferInstanceAs (Decidable (enabled s l ∧ Allowed enabled perform (perform s l) tr))

/-- Follows a partial step function along a list of labels, while they are
    enabled. -/
def follow (enabled : σ → ℓ → Prop) [∀ s l, Decidable (enabled s l)] (next : σ → ℓ → Option σ) :
    σ → List ℓ → Option σ
  | s, [] => some s
  | s, l :: tr => if enabled s l then (next s l).bind (follow enabled next · tr) else none

variable {M : System σ ℓ}

/-- One step is a run. -/
theorem Run.single {s t : σ} {l : ℓ} (h : M.step s l t) : M.Run s [l] t :=
  Run.snoc .nil h

/-- Runs compose. -/
theorem Run.append {s t u : σ} {tr tr' : List ℓ} (h : M.Run s tr t)
    (h' : M.Run t tr' u) : M.Run s (tr ++ tr') u := by
  induction h' with
  | nil => simpa using h
  | snoc _ hstep ih =>
    rw [← List.append_assoc]
    exact .snoc ih hstep

/-- A list of labels that is allowed is a run, to the state it computes. -/
theorem Run.of_allowed {init : σ → Prop} {enabled : σ → ℓ → Prop} {perform : σ → ℓ → σ} {s : σ}
    {tr : List ℓ} (h : Allowed enabled perform s tr) :
    (guarded init enabled perform).Run s tr (tr.foldl perform s) := by
  induction tr generalizing s with
  | nil => exact .nil
  | cons l tr ih =>
    have hl : (guarded init enabled perform).step s l (perform s l) := ⟨h.1, rfl⟩
    exact (Run.single hl).append (ih h.2)

theorem Run.of_allowed_restrict {init : σ → Prop} {enabled : σ → ℓ → Prop}
    {perform : σ → ℓ → σ} {P : σ → ℓ → Prop} {s : σ} {tr : List ℓ}
    (h : Allowed (fun s l => P s l ∧ enabled s l) perform s tr) :
    ((guarded init enabled perform).restrict P).Run s tr (tr.foldl perform s) := by
  induction tr generalizing s with
  | nil => exact .nil
  | cons l tr ih =>
    have hl : ((guarded init enabled perform).restrict P).step s l (perform s l) :=
      ⟨h.1.1, h.1.2, rfl⟩
    exact (Run.single hl).append (ih h.2)

theorem Run.of_follow {enabled : σ → ℓ → Prop} [∀ s l, Decidable (enabled s l)]
    {next : σ → ℓ → Option σ}
    (hstep : ∀ s l t, enabled s l → next s l = some t → M.step s l t) {s t : σ} {tr : List ℓ}
    (h : follow enabled next s tr = some t) : M.Run s tr t := by
  induction tr generalizing s with
  | nil =>
    cases h
    exact .nil
  | cons l tr ih =>
    rw [follow] at h
    split at h
    · rename_i hl
      obtain ⟨u, hu, hrest⟩ := Option.bind_eq_some_iff.mp h
      exact (Run.single (hstep s l u hl hu)).append (ih hrest)
    · cases h

/-- The last step of a run. -/
theorem Run.of_concat {s t : σ} {tr : List ℓ} {l : ℓ} (h : M.Run s (tr ++ [l]) t) :
    ∃ u, M.Run s tr u ∧ M.step u l t := by
  generalize htr : tr ++ [l] = tr' at h
  cases h with
  | nil => exact absurd htr (List.append_ne_nil_of_right_ne_nil tr (List.cons_ne_nil l []))
  | snoc hrun hl =>
    obtain ⟨rfl, hlast⟩ := List.append_inj' htr rfl
    cases hlast
    exact ⟨_, hrun, hl⟩

/-- A run may be cut anywhere. -/
theorem Run.of_append {s t : σ} {tr tr' : List ℓ} (h : M.Run s (tr ++ tr') t) :
    ∃ u, M.Run s tr u ∧ M.Run u tr' t := by
  induction tr' using List.reverseRecOn generalizing t with
  | nil => exact ⟨t, by simpa using h, .nil⟩
  | append_singleton tr' l ih =>
    rw [← List.append_assoc] at h
    obtain ⟨u, hu, hl⟩ := h.of_concat
    obtain ⟨v, hv, hvu⟩ := ih hu
    exact ⟨v, hv, hvu.snoc hl⟩

theorem Run.of_nil {s t : σ} (h : M.Run s [] t) : s = t := by
  generalize htr : ([] : List ℓ) = tr at h
  cases h with
  | nil => rfl
  | snoc _ _ => exact absurd htr.symm (List.append_ne_nil_of_right_ne_nil _ (List.cons_ne_nil _ _))

/-- The first step of a run. -/
theorem Run.of_cons {s t : σ} {l : ℓ} {tr : List ℓ} (h : M.Run s (l :: tr) t) :
    ∃ u, M.step s l u ∧ M.Run u tr t := by
  have hcut : M.Run s ([] ++ [l] ++ tr) t := h
  obtain ⟨u, hu, hrun⟩ := hcut.of_append
  obtain ⟨v, hv, hl⟩ := hu.of_concat
  cases hv.of_nil
  exact ⟨u, hl, hrun⟩

/-- A property kept by every step is kept along a run. -/
theorem Run.invariant {I : σ → Prop} (hstep : ∀ s l t, I s → M.step s l t → I t)
    {s t : σ} {tr : List ℓ} (h : M.Run s tr t) (hs : I s) : I t := by
  induction h with
  | nil => exact hs
  | snoc _ hl ih => exact hstep _ _ _ ih hl

/-- A reflexive and transitive relation that every step of an invariant state
    respects relates the two ends of a run. -/
theorem Run.relates {I : σ → Prop} {R : σ → σ → Prop}
    (hrefl : ∀ s, I s → R s s) (htrans : ∀ s t u, R s t → R t u → R s u)
    (hI : ∀ s l t, I s → M.step s l t → I t)
    (hR : ∀ s l t, I s → M.step s l t → R s t)
    {s t : σ} {tr : List ℓ} (h : M.Run s tr t) (hs : I s) : R s t := by
  induction h with
  | nil => exact hrefl _ hs
  | snoc hrun hl ih =>
    have hmid := hrun.invariant hI hs
    exact htrans _ _ _ ih (hR _ _ _ hmid hl)

/-- **Invariant rule**: what holds initially and is kept by every step holds in
    every reachable state. -/
theorem Reachable.invariant {I : σ → Prop} (hinit : ∀ s, M.init s → I s)
    (hstep : ∀ s l t, I s → M.step s l t → I t) {s : σ} (h : M.Reachable s) : I s := by
  obtain ⟨s₀, tr, h₀, hrun⟩ := h
  exact hrun.invariant hstep (hinit _ h₀)

/-- **Trace rule**: an invariant may also speak about the labels so far. -/
theorem Run.trace_invariant {I : List ℓ → σ → Prop} {s t : σ} {tr : List ℓ}
    (hnil : I [] s) (hstep : ∀ tr t l u, I tr t → M.step t l u → I (tr ++ [l]) u)
    (h : M.Run s tr t) : I tr t := by
  induction h with
  | nil => exact hnil
  | snoc _ hl ih => exact hstep _ _ _ _ ih hl

/-- A run of a restricted system is a run of the system. -/
theorem Run.of_restrict {P : σ → ℓ → Prop} {s t : σ} {tr : List ℓ}
    (h : (M.restrict P).Run s tr t) : M.Run s tr t := by
  induction h with
  | nil => exact .nil
  | snoc _ hl ih => exact .snoc ih hl.2

/-- A condition on the labels alone is one on the list of labels. -/
theorem Run.restrict_labels_iff {P : ℓ → Prop} {s t : σ} {tr : List ℓ} (h : M.Run s tr t) :
    (M.restrict fun _ l => P l).Run s tr t ↔ ∀ l ∈ tr, P l := by
  constructor
  · intro hrun
    refine hrun.trace_invariant (I := fun tr _ => ∀ l ∈ tr, P l) ?_ ?_
    · intro l hl
      cases hl
    · intro tr t l u htr hstep k hk
      rcases List.mem_append.mp hk with hk | hk
      · exact htr k hk
      · rw [List.mem_singleton.mp hk]
        exact hstep.1
  · intro hall
    induction h with
    | nil => exact .nil
    | snoc hrun hl ih =>
      have hrest := ih fun k hk => hall k (List.mem_append_left _ hk)
      exact hrest.snoc ⟨hall _ (List.mem_append_right _ List.mem_cons_self), hl⟩

/-- Where a label determines the next state, the labels of a run determine its end. -/
theorem Run.unique (hdet : ∀ s l t u, M.step s l t → M.step s l u → t = u) {s t u : σ}
    {tr : List ℓ} (h : M.Run s tr t) (h' : M.Run s tr u) : t = u := by
  induction h generalizing u with
  | nil => exact h'.of_nil
  | snoc _ hl ih =>
    obtain ⟨v, hv, hlast⟩ := h'.of_concat
    cases ih hv
    exact hdet _ _ _ _ hl hlast

/-- **Blame rule**: where a step keeps `I` exactly if it meets `P`, a run has `I` in
    every state if and only if all its steps meet `P`. `J` is an invariant that
    the step may rely on. -/
theorem Run.restrict_iff {I J : σ → Prop} {P : σ → ℓ → Prop}
    (hdet : ∀ s l t u, M.step s l t → M.step s l u → t = u)
    (hJ : ∀ s l t, J s → M.step s l t → J t)
    (hI : ∀ s l t, J s → I s → M.step s l t → (I t ↔ P s l))
    {s t : σ} {tr : List ℓ} (hs : I s) (hJs : J s) (h : M.Run s tr t) :
    (∀ tr₁ tr₂ u, tr = tr₁ ++ tr₂ → M.Run s tr₁ u → I u) ↔ (M.restrict P).Run s tr t := by
  constructor
  · intro hall
    induction h with
    | nil => exact .nil
    | @snoc tr t u l hrun hl ih =>
      have hbefore : I t := hall tr [l] t rfl hrun
      have hafter : I u := hall (tr ++ [l]) [] u (List.append_nil _).symm (hrun.snoc hl)
      have hrest := ih fun tr₁ tr₂ v htr hv =>
        hall tr₁ (tr₂ ++ [l]) v (by rw [htr, List.append_assoc]) hv
      exact hrest.snoc ⟨(hI _ _ _ (hrun.invariant hJ hJs) hbefore hl).mp hafter, hl⟩
  · rintro hrun tr₁ tr₂ u rfl hu
    obtain ⟨v, hv, _⟩ := hrun.of_append
    cases hu.unique hdet hv.of_restrict
    refine (hv.invariant (I := fun s => I s ∧ J s) ?_ ⟨hs, hJs⟩).1
    intro s l t hst hstep
    exact ⟨(hI s l t hst.2 hst.1 hstep.2).mpr hstep.1, hJ s l t hst.2 hstep.2⟩

end System

/-- Forward simulation: related states stay related, label by label. -/
structure Simulation (C : System σ ℓ) (A : System τ ℓ) (R : σ → τ → Prop) : Prop where
  init : ∀ s, C.init s → ∃ a, A.init a ∧ R s a
  step : ∀ s a l t, R s a → C.step s l t → ∃ b, A.step a l b ∧ R t b

/-- A simulation carries whole runs: every trace of the concrete system is a
    trace of the abstract one, ending in related states. -/
theorem Simulation.run {C : System σ ℓ} {A : System τ ℓ} {R : σ → τ → Prop}
    (hsim : Simulation C A R) {s t : σ} {a : τ} {tr : List ℓ} (hR : R s a)
    (h : C.Run s tr t) : ∃ b, A.Run a tr b ∧ R t b := by
  induction h with
  | nil => exact ⟨a, .nil, hR⟩
  | snoc _ hl ih =>
    obtain ⟨b, hb, hRb⟩ := ih
    obtain ⟨c, hc, hRc⟩ := hsim.step _ _ _ _ hRb hl
    exact ⟨c, .snoc hb hc, hRc⟩

/-- Forward simulation between systems with labels of their own: a step is matched by
    a run, and what is seen of the one is what is seen of the other. -/
structure WeakSimulation {κ ω : Type*} (C : System σ ℓ) (A : System τ κ) (seen : ℓ → Option ω)
    (seen' : κ → Option ω) (R : σ → τ → Prop) : Prop where
  init : ∀ s, C.init s → ∃ a, A.init a ∧ R s a
  step : ∀ s a l t, R s a → C.step s l t →
    ∃ tr b, A.Run a tr b ∧ tr.filterMap seen' = (seen l).toList ∧ R t b

/-- A weak simulation carries whole runs, and what is seen of them. -/
theorem WeakSimulation.run {κ ω : Type*} {C : System σ ℓ} {A : System τ κ} {seen : ℓ → Option ω}
    {seen' : κ → Option ω} {R : σ → τ → Prop} (hsim : WeakSimulation C A seen seen' R) {s t : σ}
    {a : τ} {tr : List ℓ} (hR : R s a) (h : C.Run s tr t) :
    ∃ tr' b, A.Run a tr' b ∧ tr'.filterMap seen' = tr.filterMap seen ∧ R t b := by
  induction h with
  | nil => exact ⟨[], a, .nil, rfl, hR⟩
  | @snoc tr t u l _ hl ih =>
    obtain ⟨tr₁, b, hb, hseen₁, hRb⟩ := ih
    obtain ⟨tr₂, c, hc, hseen₂, hRc⟩ := hsim.step _ _ _ _ hRb hl
    have hseen : (tr₁ ++ tr₂).filterMap seen' = (tr ++ [l]).filterMap seen := by
      rw [List.filterMap_append, List.filterMap_append, hseen₁, hseen₂]
      cases hsl : seen l <;> simp [hsl]
    exact ⟨tr₁ ++ tr₂, c, hb.append hc, hseen, hRc⟩

end Transition
