import Mathlib

/-!
# Ordered sets

A finite set of keys of a linear order, iterated in increasing order: the
elements are a strictly increasing list, so there is one value for each set.
Insertion tells whether the key was new, removal how many keys it took away, and
a bound cuts the set into what is below it and the rest.
-/

structure OrderedSet (α : Type*) [LinearOrder α] where
  toList : List α
  sorted : toList.Pairwise (· < ·)

namespace OrderedSet

variable {α : Type*} [LinearOrder α]

instance : Membership α (OrderedSet α) := ⟨fun s x => x ∈ s.toList⟩

instance (s : OrderedSet α) (x : α) : Decidable (x ∈ s) :=
  inferInstanceAs (Decidable (x ∈ s.toList))

def empty : OrderedSet α := ⟨[], .nil⟩

def size (s : OrderedSet α) : Nat := s.toList.length

def first (s : OrderedSet α) : Option α := s.toList.head?

theorem nodup (s : OrderedSet α) : s.toList.Nodup := s.sorted.imp ne_of_lt

theorem sorted_orderedInsert {l : List α} (h : l.Pairwise (· < ·)) {x : α} (hx : x ∉ l) :
    (l.orderedInsert (· ≤ ·) x).Pairwise (· < ·) := by
  have hle : (l.orderedInsert (· ≤ ·) x).Pairwise (· ≤ ·) := (h.imp le_of_lt).orderedInsert x
  have hnodup : (l.orderedInsert (· ≤ ·) x).Nodup := by
    rw [(List.perm_orderedInsert (· ≤ ·) x l).nodup_iff, List.nodup_cons]
    exact ⟨hx, h.imp ne_of_lt⟩
  exact (hle.and hnodup).imp fun hab => lt_of_le_of_ne hab.1 hab.2

/-- The set with `x`, and whether `x` was new. -/
def insert (s : OrderedSet α) (x : α) : OrderedSet α × Bool :=
  if h : x ∈ s.toList then (s, false)
  else (⟨s.toList.orderedInsert (· ≤ ·) x, sorted_orderedInsert s.sorted h⟩, true)

/-- The set without `x`, and how many keys were removed. -/
def erase (s : OrderedSet α) (x : α) : OrderedSet α × Nat :=
  (⟨s.toList.erase x, s.sorted.sublist List.erase_sublist⟩, if x ∈ s then 1 else 0)

/-- The keys below `x`, in order. -/
def below (s : OrderedSet α) (x : α) : List α := s.toList.takeWhile (· < x)

/-- The keys that are not below `x`. -/
def above (s : OrderedSet α) (x : α) : OrderedSet α :=
  ⟨s.toList.dropWhile (· < x), s.sorted.sublist (List.dropWhile_sublist _)⟩

@[simp] theorem not_mem_empty (x : α) : x ∉ (empty : OrderedSet α) := List.not_mem_nil

theorem mem_insert {s : OrderedSet α} {x y : α} : y ∈ (s.insert x).1 ↔ y = x ∨ y ∈ s := by
  unfold insert
  split
  · rename_i h
    refine ⟨Or.inr, ?_⟩
    rintro (rfl | hy)
    · exact h
    · exact hy
  · exact List.mem_orderedInsert _

theorem insert_new {s : OrderedSet α} {x : α} (h : x ∉ s) : (s.insert x).2 = true := by
  have hx : x ∉ s.toList := h
  rw [insert, dif_neg hx]

theorem mem_erase {s : OrderedSet α} {x y : α} : y ∈ (s.erase x).1 ↔ y ≠ x ∧ y ∈ s :=
  s.nodup.mem_erase_iff

theorem erase_count {s : OrderedSet α} {x : α} (h : x ∈ s) : (s.erase x).2 = 1 := if_pos h

theorem takeWhile_lt_eq_filter {l : List α} (h : l.Pairwise (· < ·)) (x : α) :
    l.takeWhile (· < x) = l.filter (· < x) := by
  induction l with
  | nil => rfl
  | cons y l ih =>
    rw [List.pairwise_cons] at h
    by_cases hy : y < x
    · simp [hy, ih h.2]
    · have hl : l.filter (· < x) = [] := by
        rw [List.filter_eq_nil_iff]
        intro z hz
        simpa using (not_lt.mp hy).trans (h.1 z hz).le
      simp [hy, hl]

theorem dropWhile_lt_eq_filter {l : List α} (h : l.Pairwise (· < ·)) (x : α) :
    l.dropWhile (· < x) = l.filter (x ≤ ·) := by
  induction l with
  | nil => rfl
  | cons y l ih =>
    rw [List.pairwise_cons] at h
    by_cases hy : y < x
    · simp [hy, ih h.2]
    · have hl : l.filter (x ≤ ·) = l := by
        rw [List.filter_eq_self]
        intro z hz
        simpa using (not_lt.mp hy).trans (h.1 z hz).le
      simp [hy, hl, not_lt.mp hy]

theorem below_eq_filter (s : OrderedSet α) (x : α) : s.below x = s.toList.filter (· < x) :=
  takeWhile_lt_eq_filter s.sorted x

theorem mem_below {s : OrderedSet α} {x y : α} : y ∈ s.below x ↔ y ∈ s ∧ y < x := by
  rw [below_eq_filter, List.mem_filter, decide_eq_true_iff]
  rfl

theorem mem_above {s : OrderedSet α} {x y : α} : y ∈ s.above x ↔ y ∈ s ∧ x ≤ y := by
  change y ∈ s.toList.dropWhile (· < x) ↔ _
  rw [dropWhile_lt_eq_filter s.sorted, List.mem_filter, decide_eq_true_iff]
  rfl

theorem below_sorted (s : OrderedSet α) (x : α) : (s.below x).Pairwise (· < ·) :=
  s.sorted.sublist (List.takeWhile_sublist _)

theorem first_mem {s : OrderedSet α} {x : α} (h : s.first = some x) : x ∈ s :=
  List.mem_of_head? h

theorem first_le {s : OrderedSet α} {x y : α} (h : s.first = some x) (hy : y ∈ s) : x ≤ y := by
  obtain ⟨rest, hrest⟩ := List.head?_eq_some_iff.mp h
  have hsorted := s.sorted
  have hmem : y ∈ s.toList := hy
  rw [hrest] at hsorted hmem
  rcases List.mem_cons.mp hmem with rfl | hy
  · exact le_refl y
  · exact le_of_lt ((List.pairwise_cons.mp hsorted).1 y hy)

theorem first_eq_none {s : OrderedSet α} : s.first = none ↔ ∀ x, x ∉ s := by
  rw [first, List.head?_eq_none_iff, List.eq_nil_iff_forall_not_mem]
  rfl

/-- Two sets whose keys have the same images, each image of one key, have the
    same size. -/
theorem size_eq_of_images {β γ : Type*} [LinearOrder β] {s : OrderedSet α} {t : OrderedSet β}
    {f : α → γ} {g : β → γ} (hf : ∀ x ∈ s, ∀ y ∈ s, f x = f y → x = y)
    (hg : ∀ x ∈ t, ∀ y ∈ t, g x = g y → x = y)
    (himage : ∀ c, (∃ x ∈ s, f x = c) ↔ ∃ y ∈ t, g y = c) : s.size = t.size := by
  have hs : (s.toList.map f).Nodup := (List.nodup_map_iff_inj_on s.nodup).mpr hf
  have ht : (t.toList.map g).Nodup := (List.nodup_map_iff_inj_on t.nodup).mpr hg
  have hperm : (s.toList.map f).Perm (t.toList.map g) := by
    rw [List.perm_ext_iff_of_nodup hs ht]
    intro c
    rw [List.mem_map, List.mem_map]
    exact himage c
  simpa [size] using hperm.length_eq

end OrderedSet
