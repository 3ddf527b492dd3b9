import DamnWebServer.Lib.Transition

/-!
# A journal in volumes

Entries are logged one by one, and stored later in the same order. They are
stored at the end of the last volume; a new volume may be begun at any time, and
what has been stored is never touched again.

## Main definitions

- `Journal` — what has been logged, and what each volume holds of it
- `Journal.system` — logging, storing and beginning volumes
- `Journal.Extends` — volumes of which the last has grown, or more have been begun
-/

/-- What has been logged, and the volumes that hold a first part of it. -/
structure Journal (α : Type*) where
  logged : List α
  volumes : List (List α)

namespace Journal

variable {α : Type*} {i j : Journal α}

inductive Event (α : Type*) where
  | log (a : α)
  | store (as : List α)
  | begin

/-- The entry that is logged. -/
def Event.entry : Event α → Option α
  | .log a => some a
  | .store _ | .begin => none

def empty : Journal α := ⟨[], []⟩

inductive Step : Journal α → Event α → Journal α → Prop where
  | log (j : Journal α) (a : α) : Step j (.log a) { j with logged := j.logged ++ [a] }
  /-- Only what has been logged is stored, in its order. -/
  | store {j : Journal α} {vs : List (List α)} {v as : List α} (hvolumes : j.volumes = vs ++ [v])
      (hlogged : vs.flatten ++ v ++ as <+: j.logged) :
      Step j (.store as) { j with volumes := vs ++ [v ++ as] }
  | begin (j : Journal α) : Step j .begin { j with volumes := j.volumes ++ [[]] }

def system (α : Type*) : Transition.System (Journal α) (Event α) where
  init j := j = empty
  step := Step

/-- All volumes are still there: those before the last as they were, the last perhaps
    longer, and perhaps others behind it. -/
def Extends (vs ws : List (List α)) : Prop :=
  ∀ k v, vs[k]? = some v → ∃ w, ws[k]? = some w ∧ v <+: w ∧ (k + 1 < vs.length → w = v)

theorem Extends.refl (vs : List (List α)) : Extends vs vs := by
  intro k v hv
  exact ⟨v, hv, List.prefix_refl v, fun _ => rfl⟩

theorem Extends.length_le {vs ws : List (List α)} (h : Extends vs ws) : vs.length ≤ ws.length := by
  by_contra hlen
  have hk : ws.length < vs.length := Nat.lt_of_not_le hlen
  obtain ⟨w, hw, _⟩ := h ws.length _ (List.getElem?_eq_getElem hk)
  rw [List.getElem?_eq_none (Nat.le_refl _)] at hw
  cases hw

theorem Extends.trans {us vs ws : List (List α)} (h : Extends us vs) (h' : Extends vs ws) :
    Extends us ws := by
  intro k u hu
  obtain ⟨v, hv, huv, hsame⟩ := h k u hu
  obtain ⟨w, hw, hvw, hsame'⟩ := h' k v hv
  refine ⟨w, hw, huv.trans hvw, fun hk => ?_⟩
  rw [hsame' (Nat.lt_of_lt_of_le hk h.length_le), hsame hk]

theorem Extends.append (vs ws : List (List α)) : Extends vs (vs ++ ws) := by
  intro k v hv
  refine ⟨v, ?_, List.prefix_refl v, fun _ => rfl⟩
  rw [List.getElem?_append_left (List.getElem?_eq_some_iff.mp hv).1]
  exact hv

/-- More is put at the end of the last volume. -/
theorem Extends.last (vs : List (List α)) (v as : List α) :
    Extends (vs ++ [v]) (vs ++ [v ++ as]) := by
  intro k u hu
  by_cases hk : k < vs.length
  · rw [List.getElem?_append_left hk] at hu
    refine ⟨u, ?_, List.prefix_refl u, fun _ => rfl⟩
    rwa [List.getElem?_append_left hk]
  · have hlast : k = vs.length := by
      have hlt := (List.getElem?_eq_some_iff.mp hu).1
      rw [List.length_append, List.length_singleton] at hlt
      omega
    subst hlast
    rw [List.getElem?_concat_length] at hu
    cases hu
    refine ⟨v ++ as, List.getElem?_concat_length, List.prefix_append v as, fun hlt => ?_⟩
    rw [List.length_append, List.length_singleton] at hlt
    exact absurd hlt (Nat.lt_irrefl _)

/-- A step touches nothing that is stored. -/
theorem Step.extends {e : Event α} (h : Step i e j) : Extends i.volumes j.volumes := by
  cases h with
  | log a => exact .refl _
  | @store vs v as hvolumes _ =>
    show Extends i.volumes (vs ++ [v ++ as])
    rw [hvolumes]
    exact .last vs v as
  | begin => exact .append _ _

theorem Step.stored {e : Event α} (h : Step i e j) (hi : i.volumes.flatten <+: i.logged) :
    j.volumes.flatten <+: j.logged := by
  cases h with
  | log a => exact hi.trans (List.prefix_append _ _)
  | @store vs v as _ hlogged =>
    show (vs ++ [v ++ as]).flatten <+: i.logged
    rwa [List.flatten_append, List.flatten_singleton, ← List.append_assoc]
  | begin =>
    show (i.volumes ++ [[]]).flatten <+: i.logged
    rwa [List.flatten_append, List.flatten_singleton, List.append_nil]

/-- The last of some things that stand for volumes stands for the last volume. -/
theorem forall₂_of_concat {β : Type*} {R : β → List α → Prop} {fs : List β} {f : β}
    {vs : List (List α)} (h : List.Forall₂ R (fs ++ [f]) vs) :
    ∃ us v, vs = us ++ [v] ∧ List.Forall₂ R fs us ∧ R f v := by
  induction fs generalizing vs with
  | nil =>
    cases h with
    | cons hf htail =>
      cases htail
      exact ⟨[], _, rfl, .nil, hf⟩
  | cons g fs ih =>
    cases h with
    | @cons _ w _ _ hg htail =>
      obtain ⟨us, v, rfl, hus, hv⟩ := ih htail
      exact ⟨w :: us, v, rfl, .cons hg hus, hv⟩

end Journal
