import Mathlib

/-!
# Ordered maps

A finite map with keys of a linear order, iterated by increasing key. The
entries are a list with strictly increasing keys.
-/

structure OrderedMap (κ α : Type*) [LinearOrder κ] where
  entries : List (κ × α)
  sorted : entries.Pairwise (·.1 < ·.1)
  deriving DecidableEq

namespace OrderedMap

variable {κ α : Type*} [LinearOrder κ]

def empty : OrderedMap κ α := ⟨[], .nil⟩

def find (m : OrderedMap κ α) (k : κ) : Option α := m.entries.lookup k

/-- The entries with `k` set to `v`: a new entry where the order wants it, or
    the old one overwritten. -/
def setEntry (k : κ) (v : α) : List (κ × α) → List (κ × α)
  | [] => [(k, v)]
  | e :: es =>
    if k < e.1 then (k, v) :: e :: es
    else if e.1 < k then e :: setEntry k v es
    else (k, v) :: es

theorem fst_mem_setEntry {k : κ} {v : α} {es : List (κ × α)} {e : κ × α}
    (h : e ∈ setEntry k v es) : e.1 = k ∨ e ∈ es := by
  induction es with
  | nil =>
    rw [setEntry, List.mem_singleton] at h
    exact Or.inl (congrArg Prod.fst h)
  | cons f es ih =>
    rw [setEntry] at h
    split at h
    · rcases List.mem_cons.mp h with rfl | h
      · exact Or.inl rfl
      · exact Or.inr h
    · split at h
      · rcases List.mem_cons.mp h with rfl | h
        · exact Or.inr List.mem_cons_self
        · exact (ih h).imp id (List.mem_cons_of_mem f)
      · rcases List.mem_cons.mp h with rfl | h
        · exact Or.inl rfl
        · exact Or.inr (List.mem_cons_of_mem f h)

theorem setEntry_sorted {k : κ} {v : α} {es : List (κ × α)} (h : es.Pairwise (·.1 < ·.1)) :
    (setEntry k v es).Pairwise (·.1 < ·.1) := by
  induction es with
  | nil => exact List.pairwise_singleton _ _
  | cons e es ih =>
    rw [List.pairwise_cons] at h
    rw [setEntry]
    split
    · rename_i hlt
      refine List.pairwise_cons.mpr ⟨?_, List.pairwise_cons.mpr h⟩
      intro f hf
      rcases List.mem_cons.mp hf with rfl | hf
      · exact hlt
      · exact lt_trans hlt (h.1 f hf)
    · rename_i hge
      split
      · rename_i hlt
        refine List.pairwise_cons.mpr ⟨?_, ih h.2⟩
        intro f hf
        rcases fst_mem_setEntry hf with hfk | hf
        · rw [hfk]
          exact hlt
        · exact h.1 f hf
      · rename_i hle
        have hk : k = e.1 := le_antisymm (not_lt.mp hle) (not_lt.mp hge)
        refine List.pairwise_cons.mpr ⟨?_, h.2⟩
        intro f hf
        change k < f.1
        rw [hk]
        exact h.1 f hf

def set (m : OrderedMap κ α) (k : κ) (v : α) : OrderedMap κ α :=
  ⟨setEntry k v m.entries, setEntry_sorted m.sorted⟩

/-- There is one map for each set of entries. -/
theorem eq_of_perm {m n : OrderedMap κ α} (h : m.entries.Perm n.entries) : m = n := by
  have heq : m.entries = n.entries :=
    h.eq_of_pairwise (fun a b _ _ hab hba => absurd (hab.trans hba) (lt_irrefl _)) m.sorted n.sorted
  cases m
  cases n
  cases heq
  rfl

/-- A new key adds an entry. -/
theorem setEntry_perm {k : κ} {v : α} {es : List (κ × α)} (h : k ∉ es.map Prod.fst) :
    (setEntry k v es).Perm ((k, v) :: es) := by
  induction es with
  | nil => exact List.Perm.refl _
  | cons e es ih =>
    rw [List.map_cons, List.mem_cons, not_or] at h
    rw [setEntry]
    split
    · exact List.Perm.refl _
    · rename_i hge
      rw [if_pos (lt_of_le_of_ne (not_lt.mp hge) (Ne.symm h.1))]
      exact ((ih h.2).cons e).trans (List.Perm.swap _ _ _)

/-- Setting keys that are all different and new adds as many entries. -/
theorem foldl_set_perm {hs : List (κ × α)} {m : OrderedMap κ α}
    (hnodup : (hs.map Prod.fst ++ m.entries.map Prod.fst).Nodup) :
    (hs.foldl (fun m h => m.set h.1 h.2) m).entries.Perm (hs ++ m.entries) := by
  induction hs generalizing m with
  | nil => exact List.Perm.refl _
  | cons h hs ih =>
    rw [List.map_cons, List.cons_append, List.nodup_cons, List.mem_append, not_or] at hnodup
    have hset : (m.set h.1 h.2).entries.Perm (h :: m.entries) := setEntry_perm hnodup.1.2
    have hkeys : (hs.map Prod.fst ++ (m.set h.1 h.2).entries.map Prod.fst).Nodup := by
      rw [(List.Perm.append_left _ (hset.map Prod.fst)).nodup_iff, List.map_cons,
        List.perm_middle.nodup_iff, List.nodup_cons, List.mem_append, not_or]
      exact ⟨hnodup.1, hnodup.2⟩
    refine (ih hkeys).trans ((List.Perm.append_left _ hset).trans ?_)
    exact List.perm_middle

/-- The entries of a map, set in any order, make the map again. -/
theorem foldl_set_eq {hs : List (κ × α)} {m : OrderedMap κ α} (h : hs.Perm m.entries) :
    hs.foldl (fun m h => m.set h.1 h.2) empty = m := by
  have hnodup : (hs.map Prod.fst ++ (empty : OrderedMap κ α).entries.map Prod.fst).Nodup := by
    change (hs.map Prod.fst ++ []).Nodup
    rw [List.append_nil, (h.map Prod.fst).nodup_iff]
    exact (List.pairwise_map.mpr m.sorted).imp ne_of_lt
  apply eq_of_perm
  refine (foldl_set_perm hnodup).trans ?_
  change (hs ++ []).Perm m.entries
  rw [List.append_nil]
  exact h

end OrderedMap
