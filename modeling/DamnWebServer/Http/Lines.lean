import DamnWebServer.Net.Buffer

/-!
# The lines of a byte stream

A stream is cut by its CRLFs into complete lines and an unfinished rest.
-/

namespace DamnWebServer

/-- The complete lines, without their CRLF, and the bytes after the last one. -/
def splitLines : List Byte → List (List Byte) × List Byte
  | [] => ([], [])
  | 13 :: 10 :: rest => ([] :: (splitLines rest).1, (splitLines rest).2)
  | b :: rest =>
    match splitLines rest with
    | ([], tail) => ([], b :: tail)
    | (line :: lines, tail) => ((b :: line) :: lines, tail)

def lines (bs : List Byte) : List (List Byte) := (splitLines bs).1

def unfinished (bs : List Byte) : List Byte := (splitLines bs).2

theorem unfinished_of_lines_nil {bs : List Byte} (h : lines bs = []) : unfinished bs = bs := by
  induction bs using splitLines.induct with
  | case1 => rfl
  | case2 rest _ => cases h
  | case3 b rest hno tail hsplit ih =>
    have hcons : splitLines (b :: rest) = ([], b :: tail) := by
      rw [splitLines.eq_3 _ _ hno, hsplit]
    have hnil : lines rest = [] := congrArg Prod.fst hsplit
    have htail : unfinished rest = tail := congrArg Prod.snd hsplit
    rw [unfinished, hcons, ← htail, ih hnil]
  | case4 b rest hno line ls tail hsplit ih =>
    have hcons : splitLines (b :: rest) = ((b :: line) :: ls, tail) := by
      rw [splitLines.eq_3 _ _ hno, hsplit]
    rw [lines, hcons] at h
    cases h

/-- More bytes finish the unfinished line and bring further ones; the complete
    lines stay. -/
theorem splitLines_append (a b : List Byte) :
    splitLines (a ++ b) =
      (lines a ++ lines (unfinished a ++ b), unfinished (unfinished a ++ b)) := by
  induction a using splitLines.induct with
  | case1 => rfl
  | case2 rest ih =>
    change splitLines (13 :: 10 :: (rest ++ b)) = _
    rw [splitLines, ih]
    rfl
  | case3 c rest hno tail hsplit _ =>
    -- no line is complete yet, so both sides split the same bytes
    have hcons : splitLines (c :: rest) = ([], c :: tail) := by
      rw [splitLines.eq_3 _ _ hno, hsplit]
    have hnil : lines (c :: rest) = [] := congrArg Prod.fst hcons
    rw [hnil, unfinished_of_lines_nil hnil]
    rfl
  | case4 c rest hno line ls tail hsplit ih =>
    have hcons : splitLines (c :: rest) = ((c :: line) :: ls, tail) := by
      rw [splitLines.eq_3 _ _ hno, hsplit]
    have hno' : ∀ r, c = 13 → rest ++ b = 10 :: r → False := by
      intro r hc hr
      cases rest with
      | nil => cases hsplit
      | cons d rest =>
        cases hr
        exact hno rest hc rfl
    have hlines : lines rest = line :: ls := congrArg Prod.fst hsplit
    have htail : unfinished rest = tail := congrArg Prod.snd hsplit
    have hlines' : lines (c :: rest) = (c :: line) :: ls := congrArg Prod.fst hcons
    have htail' : unfinished (c :: rest) = tail := congrArg Prod.snd hcons
    rw [hlines, htail] at ih
    rw [hlines', htail']
    change splitLines (c :: (rest ++ b)) = _
    rw [splitLines.eq_3 _ _ hno', ih]
    rfl

theorem lines_append (a b : List Byte) :
    lines (a ++ b) = lines a ++ lines (unfinished a ++ b) :=
  congrArg Prod.fst (splitLines_append a b)

theorem unfinished_append (a b : List Byte) :
    unfinished (a ++ b) = unfinished (unfinished a ++ b) := by
  rw [unfinished, splitLines_append]

theorem lines_unfinished (bs : List Byte) : lines (unfinished bs) = [] := by
  have h := lines_append bs []
  rw [List.append_nil, List.append_nil] at h
  exact List.self_eq_append_right.mp h

/-- The first CRLF ends the first line. -/
theorem splitLines_of_search {bs : List Byte} {i : Nat} (h : Buffer.searchCRLF bs = some i) :
    i + 2 ≤ bs.length ∧
      splitLines bs = (bs.take i :: lines (bs.drop (i + 2)), unfinished (bs.drop (i + 2))) := by
  induction bs using splitLines.induct generalizing i with
  | case1 => cases h
  | case2 rest _ =>
    rw [Buffer.searchCRLF] at h
    cases h
    exact ⟨Nat.le_add_left 2 rest.length, rfl⟩
  | case3 c rest hno tail hsplit ih =>
    rw [Buffer.searchCRLF.eq_2 _ _ hno, Option.map_eq_some_iff] at h
    obtain ⟨j, hj, rfl⟩ := h
    obtain ⟨_, hrest⟩ := ih hj
    rw [hsplit] at hrest
    cases hrest
  | case4 c rest hno line ls tail hsplit ih =>
    rw [Buffer.searchCRLF.eq_2 _ _ hno, Option.map_eq_some_iff] at h
    obtain ⟨j, hj, rfl⟩ := h
    obtain ⟨hle, hrest⟩ := ih hj
    refine ⟨Nat.succ_le_succ hle, ?_⟩
    rw [hsplit] at hrest
    obtain ⟨hfirst, htail⟩ := Prod.mk.inj hrest
    obtain ⟨hline, hls⟩ := List.cons.inj hfirst
    rw [splitLines.eq_3 _ _ hno, hsplit, hline, hls, htail]
    rfl

theorem lines_of_search_none {bs : List Byte} (h : Buffer.searchCRLF bs = none) :
    lines bs = [] := by
  induction bs using splitLines.induct with
  | case1 => rfl
  | case2 rest _ => cases h
  | case3 c rest hno tail hsplit _ =>
    rw [lines, splitLines.eq_3 _ _ hno, hsplit]
  | case4 c rest hno line ls tail hsplit ih =>
    rw [Buffer.searchCRLF.eq_2 _ _ hno, Option.map_eq_none_iff] at h
    have hnil := ih h
    rw [lines, hsplit] at hnil
    cases hnil

/-- A line with its CRLF is that one line, if no CRLF stands in it. -/
theorem splitLines_line {l : List Byte} (h : lines l = []) (rest : List Byte) :
    splitLines (l ++ 13 :: 10 :: rest) = (l :: lines rest, unfinished rest) := by
  induction l using splitLines.induct with
  | case1 => rfl
  | case2 _ _ => cases h
  | case4 c l hno line ls tail hsplit _ =>
    rw [lines, splitLines.eq_3 _ _ hno, hsplit] at h
    cases h
  | case3 c l hno tail hsplit ih =>
    have hno' : ∀ r, c = 13 → l ++ 13 :: 10 :: rest = 10 :: r → False := by
      intro r hc hr
      cases l with
      | nil => cases hr
      | cons d l =>
        cases hr
        exact hno l hc rfl
    have hnil : lines l = [] := congrArg Prod.fst hsplit
    change splitLines (c :: (l ++ 13 :: 10 :: rest)) = _
    rw [splitLines.eq_3 _ _ hno', ih hnil]

/-- Put together again. -/
theorem join_lines (bs : List Byte) :
    (lines bs).flatMap (· ++ [13, 10]) ++ unfinished bs = bs := by
  induction bs using splitLines.induct with
  | case1 => rfl
  | case2 rest ih =>
    change 13 :: 10 :: ((lines rest).flatMap (· ++ [13, 10]) ++ unfinished rest) = _
    rw [ih]
  | case3 c rest hno tail hsplit ih =>
    have hnil : lines rest = [] := congrArg Prod.fst hsplit
    have htail : unfinished rest = tail := congrArg Prod.snd hsplit
    rw [hnil, htail] at ih
    rw [lines, unfinished, splitLines.eq_3 _ _ hno, hsplit]
    exact congrArg (c :: ·) ih
  | case4 c rest hno line ls tail hsplit ih =>
    have hlines : lines rest = line :: ls := congrArg Prod.fst hsplit
    have htail : unfinished rest = tail := congrArg Prod.snd hsplit
    rw [hlines, htail] at ih
    rw [lines, unfinished, splitLines.eq_3 _ _ hno, hsplit]
    exact congrArg (c :: ·) ih

/-- No line holds a CRLF. -/
theorem lines_line {bs l : List Byte} (h : l ∈ lines bs) : lines l = [] := by
  induction bs using splitLines.induct generalizing l with
  | case1 => cases h
  | case2 rest ih =>
    rcases List.mem_cons.mp h with rfl | h
    · rfl
    · exact ih h
  | case3 c rest hno tail hsplit _ =>
    rw [lines, splitLines.eq_3 _ _ hno, hsplit] at h
    cases h
  | case4 c rest hno line ls tail hsplit ih =>
    have hlines : lines rest = line :: ls := congrArg Prod.fst hsplit
    rw [lines, splitLines.eq_3 _ _ hno, hsplit] at h
    rw [hlines] at ih
    rcases List.mem_cons.mp h with rfl | h
    · have hjoin := join_lines rest
      rw [hlines, List.flatMap_cons] at hjoin
      have hno' : ∀ r, c = 13 → line = 10 :: r → False := by
        rintro r hc rfl
        exact hno _ hc hjoin.symm
      have hnil := ih List.mem_cons_self
      rw [lines] at hnil ⊢
      rw [splitLines.eq_3 _ _ hno']
      revert hnil
      rcases splitLines line with ⟨_ | ⟨_, _⟩, _⟩
      · intro _
        rfl
      · nofun
    · exact ih (List.mem_cons_of_mem line h)

/-- No CRLF stands in the bytes. -/
def NoCRLF (bs : List Byte) : Prop := ¬ [13, 10] <:+: bs

theorem noCRLF_iff {bs : List Byte} : NoCRLF bs ↔ lines bs = [] := by
  constructor
  · intro h
    by_contra hne
    obtain ⟨l, ls, hls⟩ := List.exists_cons_of_ne_nil hne
    apply h
    refine ⟨l, ls.flatMap (· ++ [13, 10]) ++ unfinished bs, ?_⟩
    have hjoin := join_lines bs
    rw [hls, List.flatMap_cons, List.append_assoc] at hjoin
    exact hjoin
  · rintro h ⟨before, after, rfl⟩
    have hline := splitLines_line (lines_unfinished before) after
    rw [List.append_assoc, lines_append] at h
    have hsome : lines (unfinished before ++ ([13, 10] ++ after)) = unfinished before :: lines after :=
      congrArg Prod.fst hline
    rw [hsome] at h
    exact absurd h (List.append_ne_nil_of_right_ne_nil _ (List.cons_ne_nil _ _))

instance (bs : List Byte) : Decidable (NoCRLF bs) := decidable_of_iff _ noCRLF_iff.symm

/-- A byte that is no LF keeps what stands before and behind it apart. -/
theorem NoCRLF.join {a b : List Byte} {x : Byte} (ha : NoCRLF a) (hx : x ≠ 10)
    (hb : NoCRLF (x :: b)) : NoCRLF (a ++ x :: b) := by
  rw [noCRLF_iff] at ha hb ⊢
  induction a using splitLines.induct with
  | case1 => exact hb
  | case2 rest _ => cases ha
  | case3 c rest hno tail hsplit ih =>
    have hno' : ∀ r, c = 13 → rest ++ x :: b = 10 :: r → False := by
      intro r hc hr
      cases rest with
      | nil => exact hx (List.cons.inj hr).1
      | cons d rest =>
        cases hr
        exact hno rest hc rfl
    have hnil : lines (rest ++ x :: b) = [] := ih (congrArg Prod.fst hsplit)
    rw [lines] at hnil ⊢
    rw [List.cons_append, splitLines.eq_3 _ _ hno']
    revert hnil
    rcases splitLines (rest ++ x :: b) with ⟨_ | ⟨_, _⟩, _⟩
    · intro _
      rfl
    · nofun
  | case4 c rest hno line ls tail hsplit _ =>
    rw [lines, splitLines.eq_3 _ _ hno, hsplit] at ha
    cases ha

/-- A byte that is no CR begins no CRLF. -/
theorem NoCRLF.cons {b : List Byte} {x : Byte} (hx : x ≠ 13) (hb : NoCRLF b) : NoCRLF (x :: b) := by
  rintro ⟨before, after, heq⟩
  cases before with
  | nil => exact hx (List.cons.inj heq).1.symm
  | cons d before => exact hb ⟨before, after, (List.cons.inj heq).2⟩

end DamnWebServer
