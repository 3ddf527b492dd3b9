import DamnWebServer.Http.Digest

/-!
# Incremental parsing

One context is fed with the chunks of a stream, each appended to one buffer and
followed by a call of `parse_request`, and another one with the whole stream in a
single call. The parser leaves an unfinished line in the buffer and nothing else,
so both come to the same end as far as `append` carries the bytes: it takes its
length through an `int`.
-/

namespace DamnWebServer

/-- How far a parse has come: `parse_request` has returned false, `got_all()`
    holds, or neither. -/
inductive ParseVerdict where
  | failed | gotAll | neither
  deriving DecidableEq, Repr

/-- The end of a parse: the verdict, the context with its state and request, and
    the bytes that were not parsed. -/
structure ParseOutcome where
  verdict : ParseVerdict
  context : HttpContext
  unread : List Byte
  deriving DecidableEq

namespace HttpContext

/-- The verdict after a call that returned `ok`. -/
def verdict (c : HttpContext) (ok : Bool) : ParseVerdict :=
  if ok = false then .failed else if c.gotAll then .gotAll else .neither

variable (receiveTime : Int)

/-- Chunk by chunk, up to the first call that fails or completes the request. -/
def parseChunks : HttpContext → Buffer → List (List Byte) → Except Fault ParseOutcome
  | c, buf, [] => .ok ⟨.neither, c, buf.readable⟩
  | c, buf, chunk :: more => do
    let buf ← buf.append chunk
    let r ← c.parse receiveTime buf
    match r.1.verdict r.2.2 with
    | .neither => parseChunks r.1 r.2.1 more
    | .failed => return ⟨.failed, r.1, r.2.1.readable ++ more.flatten⟩
    | .gotAll => return ⟨.gotAll, r.1, r.2.1.readable ++ more.flatten⟩

/-- All in one call. -/
def parseWhole (s : List Byte) : Except Fault ParseOutcome := do
  let buf ← (Buffer.new Buffer.kInitialSize).append s
  let r ← parse receiveTime {} buf
  return ⟨r.1.verdict r.2.2, r.1, r.2.1.readable⟩

/-- Every way to cut the stream ends as the stream in one piece does. -/
def ChunksAgree (s : List Byte) : Prop :=
  ∀ chunks, chunks.flatten = s → ∃ outcome,
    parseChunks receiveTime {} (Buffer.new Buffer.kInitialSize) chunks = .ok outcome ∧
      parseWhole receiveTime s = .ok outcome

/-- The end of a parse, told by the bytes alone. -/
def outcome (c : HttpContext) (bs : List Byte) : ParseOutcome where
  verdict := (digest receiveTime c (lines bs)).1.verdict (digest receiveTime c (lines bs)).2.2
  context := (digest receiveTime c (lines bs)).1
  unread := joinLines (digest receiveTime c (lines bs)).2.1 ++ unfinished bs

variable {receiveTime} {c : HttpContext} {b : Buffer}

theorem verdict_neither_iff {r : HttpContext × List (List Byte) × Bool} :
    r.1.verdict r.2.2 = .neither ↔ ¬ Stops r := by
  obtain ⟨c, rest, ok⟩ := r
  cases ok <;> simp [verdict, Stops, gotAll]

/-- Nothing is complete, so nothing happens. -/
theorem outcome_nil (hc : c.Ready) {bs : List Byte} (h : lines bs = []) :
    outcome receiveTime c bs = ⟨.neither, c, bs⟩ := by
  have hgo : ¬ Stops (digest receiveTime c []) := by
    rcases hc with rfl | hc
    · exact fun hstop => by rcases hstop with hf | hf <;> cases hf
    · rintro (hf | hf)
      · cases hf
      · exact absurd (hc.symm.trans hf) (by decide)
  have hv := verdict_neither_iff.mpr hgo
  rw [outcome, h, hv, unfinished_of_lines_nil h]
  rfl

/-- Bytes that come after the parser has stopped are left over. -/
theorem outcome_stop (hc : c.Ready) {bs : List Byte} (hstop : Stops (digest receiveTime c (lines bs)))
    (later : List Byte) :
    outcome receiveTime c (bs ++ later) =
      { outcome receiveTime c bs with unread := (outcome receiveTime c bs).unread ++ later } := by
  have happ := digest_append receiveTime hc (lines bs) (lines (unfinished bs ++ later))
  rw [if_pos hstop] at happ
  have hjoin : joinLines (lines (unfinished bs ++ later)) ++ unfinished (unfinished bs ++ later) =
      unfinished bs ++ later := join_lines _
  rw [outcome, lines_append, unfinished_append, happ]
  simp only [joinLines_append, List.append_assoc, hjoin]
  simp only [outcome, List.append_assoc]

/-- While it has not stopped, the parser goes on with the unfinished line. -/
theorem outcome_go (hc : c.Ready) {bs : List Byte} (hgo : ¬ Stops (digest receiveTime c (lines bs)))
    (later : List Byte) :
    outcome receiveTime c (bs ++ later) =
      outcome receiveTime (digest receiveTime c (lines bs)).1 (unfinished bs ++ later) := by
  have happ := digest_append receiveTime hc (lines bs) (lines (unfinished bs ++ later))
  rw [if_neg hgo] at happ
  rw [outcome, lines_append, unfinished_append, happ.2.2]
  rfl

/-- **Chunk by chunk.** By induction on the chunks, with no complete line in the
    buffer between two of them. -/
theorem parseChunks_eq (hc : c.Ready) (hb : b.Valid) (hnil : lines b.readable = [])
    {chunks : List (List Byte)} (hlen : ∀ chunk ∈ chunks, chunk.length < 2 ^ 31)
    (hfit : b.writerIndex + chunks.flatten.length ≤ maxSize) :
    parseChunks receiveTime c b chunks =
      .ok (outcome receiveTime c (b.readable ++ chunks.flatten)) := by
  induction chunks generalizing c b with
  | nil =>
    rw [List.flatten_nil, List.append_nil, outcome_nil hc hnil]
    rfl
  | cons chunk more ih =>
    rw [List.flatten_cons, List.length_append] at hfit
    obtain ⟨b₁, happ, hv₁, hr₁, hw₁⟩ := Buffer.append_ok hb chunk (hlen chunk List.mem_cons_self) (by omega)
    obtain ⟨b₂, hparse, hv₂, hw₂, hr₂⟩ := parse_digest receiveTime hv₁ hc
    rw [List.flatten_cons, ← List.append_assoc, ← hr₁]
    simp only [parseChunks, happ, hparse, bind, Except.bind]
    by_cases hstop : Stops (digest receiveTime c (lines b₁.readable))
    · have hne := mt verdict_neither_iff.mp (not_not.mpr hstop)
      have hout := outcome_stop hc hstop more.flatten
      rw [hout]
      have hun : b₂.readable = (outcome receiveTime c b₁.readable).unread := hr₂
      rw [hun]
      cases hver : (digest receiveTime c (lines b₁.readable)).1.verdict
          (digest receiveTime c (lines b₁.readable)).2.2 with
      | neither => exact absurd hver hne
      | failed => simp only [outcome, hver]; rfl
      | gotAll => simp only [outcome, hver]; rfl
    · obtain ⟨hready, hrest, _⟩ := (if_neg hstop).mp (digest_append receiveTime hc (lines b₁.readable) [])
      rw [verdict_neither_iff.mpr hstop, outcome_go hc hstop]
      have hun : b₂.readable = unfinished b₁.readable := by
        rw [hr₂, hrest]
        rfl
      rw [← hun]
      refine ih hready hv₂ ?_ (fun m hm => hlen m (List.mem_cons_of_mem chunk hm)) (by omega)
      rw [hun]
      exact lines_unfinished _

-- ════════════════════════════════════════════════════════════════════════
-- A fresh buffer
-- ════════════════════════════════════════════════════════════════════════

/-- From a fresh buffer, chunks that an `int` can count. -/
theorem parseChunks_fresh {chunks : List (List Byte)} (hlen : ∀ chunk ∈ chunks, chunk.length < 2 ^ 31)
    (hfit : chunks.flatten.length + 8 ≤ maxSize) :
    parseChunks receiveTime {} (Buffer.new Buffer.kInitialSize) chunks =
      .ok (outcome receiveTime {} chunks.flatten) := by
  have hnil : lines (Buffer.new Buffer.kInitialSize).readable = [] := by
    rw [Buffer.fresh_readable]
    rfl
  rw [parseChunks_eq (Or.inl rfl) Buffer.fresh_valid hnil hlen (by rw [Buffer.fresh_writer]; omega),
    Buffer.fresh_readable, List.nil_append]

theorem parseWhole_eq {s : List Byte} (hlen : s.length < 2 ^ 31) :
    parseWhole receiveTime s = .ok (outcome receiveTime {} s) := by
  have hfit : (Buffer.new Buffer.kInitialSize).writerIndex + s.length ≤ maxSize := by
    rw [Buffer.fresh_writer]
    unfold maxSize
    omega
  obtain ⟨b₁, happ, hv₁, hr₁, _⟩ := Buffer.append_ok Buffer.fresh_valid s hlen hfit
  obtain ⟨b₂, hparse, _, _, hr₂⟩ := parse_digest receiveTime (c := {}) hv₁ (Or.inl rfl)
  rw [Buffer.fresh_readable, List.nil_append] at hr₁
  rw [hr₁] at hparse hr₂
  simp only [parseWhole, happ, hparse, bind, Except.bind, hr₂]
  rfl

/-- In one piece, more bytes than an `int` can count never get into the buffer. -/
theorem parseWhole_overlong {s : List Byte} (hlen : 2 ^ 31 ≤ s.length) :
    ∃ f, parseWhole receiveTime s = .error f := by
  obtain ⟨f, hf⟩ := Buffer.append_overlong Buffer.fresh_tight hlen
  exact ⟨f, by rw [parseWhole, hf]; rfl⟩

/-- **Incremental parsing** ends as parsing in one call does, verdict, context and
    unread bytes, for exactly the streams whose length an `int` can hold. -/
theorem chunks_agree_iff (receiveTime : Int) (s : List Byte) :
    ChunksAgree receiveTime s ↔ s.length < 2 ^ 31 := by
  constructor
  · intro hagree
    by_contra hlong
    obtain ⟨f, hf⟩ := parseWhole_overlong (Nat.not_lt.mp hlong)
    obtain ⟨o, _, ho⟩ := hagree [s] (List.flatten_singleton)
    rw [hf] at ho
    cases ho
  · rintro hlen chunks rfl
    refine ⟨outcome receiveTime {} chunks.flatten, parseChunks_fresh ?_ ?_, parseWhole_eq hlen⟩
    · intro chunk hmem
      have hle : chunk.length ≤ chunks.flatten.length := (List.sublist_flatten_of_mem hmem).length_le
      omega
    · unfold maxSize
      omega

/-- Two chunks of `2^30` bytes are taken in, but not the same bytes in one piece. -/
theorem disagree_of_length {x y : List Byte} (hx : x.length = 2 ^ 30) (hy : y.length = 2 ^ 30) :
    (∃ outcome, parseChunks 0 {} (Buffer.new Buffer.kInitialSize) [x, y] = .ok outcome) ∧
    ¬ ChunksAgree 0 (x ++ y) := by
  have happend : (x ++ y).length = x.length + y.length := List.length_append
  have hlen : (x ++ y).length = 2 ^ 31 := by omega
  refine ⟨⟨_, parseChunks_fresh ?_ ?_⟩, ?_⟩
  · intro chunk hmem
    rcases List.mem_cons.mp hmem with rfl | hmem
    · omega
    · rw [List.mem_singleton.mp hmem]
      omega
  · rw [List.flatten_cons, List.flatten_singleton, hlen]
    decide
  · intro hagree
    obtain ⟨f, hf⟩ := parseWhole_overlong (Nat.le_of_eq hlen.symm)
    obtain ⟨o, _, ho⟩ := hagree [x ++ y] List.flatten_singleton
    rw [hf] at ho
    cases ho

theorem chunks_disagree_overlong :
    (∃ outcome, parseChunks 0 {} (Buffer.new Buffer.kInitialSize)
      [List.replicate (2 ^ 30) 0, List.replicate (2 ^ 30) 0] = .ok outcome) ∧
    ¬ ChunksAgree 0 (List.replicate (2 ^ 30) 0 ++ List.replicate (2 ^ 30) 0) :=
  disagree_of_length List.length_replicate List.length_replicate

end HttpContext

end DamnWebServer
