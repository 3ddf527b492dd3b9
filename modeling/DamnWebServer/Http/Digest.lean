import DamnWebServer.Http.Context
import DamnWebServer.Http.Lines

/-!
# The parser on lines

`parse_request` eats whole lines, so what it does to a valid buffer is told by
the complete lines of the readable bytes: the first one is read as a request
line, the next ones as headers until one has no colon. `digest` says so without
a buffer, and lines that come later can be digested later.
-/

namespace DamnWebServer

namespace Buffer

variable {b : Buffer}

/-- The line that `find_CRLF` ends, and the buffer behind it. -/
theorem Valid.findCRLF_some (h : b.Valid) {i : Nat} (hi : searchCRLF b.readable = some i) :
    b.findCRLF = some (b.peek + i) ∧ b.range b.peek (b.peek + i) = b.readable.take i ∧
      (b.retrieveUntil (b.peek + i + 2)).Valid ∧
      (b.retrieveUntil (b.peek + i + 2)).readable = b.readable.drop (i + 2) ∧
      (b.retrieveUntil (b.peek + i + 2)).writerIndex ≤ b.writerIndex := by
  obtain ⟨hle, _⟩ := splitLines_of_search hi
  rw [h.length_readable] at hle
  have hret : b.retrieveUntil (b.peek + i + 2) = b.retrieve (i + 2) := by
    rw [Nat.add_assoc]
    exact retrieveUntil_eq h hle
  refine ⟨?_, ?_, ?_, ?_, ?_⟩
  · rw [findCRLF, hi]
    rfl
  · have hcopy := h.copyFrom_peek (show i ≤ b.readableBytes by omega)
    rw [copyFrom] at hcopy
    split at hcopy
    · exact Except.ok.inj hcopy
    · cases hcopy
  · rw [hret]
    exact retrieve_valid h _
  · rw [hret]
    exact retrieve_readable h _
  · rw [hret]
    exact retrieve_writer h _

theorem findCRLF_none (h : searchCRLF b.readable = none) : b.findCRLF = none := by
  rw [findCRLF, h]
  rfl

end Buffer

/-- The line holds a colon. -/
def hasColon (line : List Byte) : Bool := (findByte 58 line).isSome

/-- `process_request_line` accepts the line for a fresh request. -/
def isRequestLine (line : List Byte) : Bool :=
  match ({} : HttpRequest).processRequestLine line with
  | .ok r => r.2
  | .error _ => false

/-- A fresh request has no method, so the assertion of `set_method` holds. -/
theorem processRequestLine_fresh (line : List Byte) :
    ∃ r, ({} : HttpRequest).processRequestLine line = .ok (r, isRequestLine line) := by
  have hok : ∃ r, ({} : HttpRequest).processRequestLine line = .ok r := by
    unfold HttpRequest.processRequestLine
    cases findByte 32 line with
    | none => exact ⟨_, rfl⟩
    | some p =>
      change ∃ r, (if decide (HttpRequest.methodOf p.1 ≠ .invalid) = true then _ else _) = _
      split
      · cases findByte 32 p.2 with
        | none => exact ⟨_, rfl⟩
        | some q => exact ⟨_, rfl⟩
      · exact ⟨_, rfl⟩
  obtain ⟨r, hr⟩ := hok
  refine ⟨r.1, ?_⟩
  rw [isRequestLine, hr]

/-- Lines with their CRLFs. -/
def joinLines (ls : List (List Byte)) : List Byte := ls.flatMap (· ++ [13, 10])

theorem joinLines_append (ls ms : List (List Byte)) :
    joinLines (ls ++ ms) = joinLines ls ++ joinLines ms := List.flatMap_append

namespace HttpContext

/-- The context after some complete lines, the lines that are left, and what the
    parser returns. -/
def digest (receiveTime : Int) :
    HttpContext → List (List Byte) → HttpContext × List (List Byte) × Bool
  | c, [] => (c, [], true)
  | c, l :: ls =>
    match c.state with
    | .expectRequestLine =>
      match c.request.processRequestLine l with
      | .ok (r, true) => digest receiveTime ⟨.expectHeaders, { r with receiveTime := receiveTime }⟩ ls
      | .ok (r, false) => ({ c with request := r }, l :: ls, false)
      | .error _ => (c, l :: ls, false)
    | .expectHeaders =>
      match findByte 58 l with
      | some (field, rest) =>
        digest receiveTime { c with request := c.request.addHeader field rest } ls
      | none => ({ c with state := .gotAll }, ls, true)
    | .expectBody | .gotAll => (c, l :: ls, true)

/-- A context that waits for a line: fresh, or in the headers. -/
def Ready (c : HttpContext) : Prop := c = {} ∨ c.state = .expectHeaders

variable (receiveTime : Int) {b : Buffer} {c : HttpContext}

theorem digest_request_line (l : List Byte) (ls : List (List Byte)) :
    ∃ r, ({} : HttpRequest).processRequestLine l = .ok (r, isRequestLine l) ∧
      digest receiveTime {} (l :: ls) =
        if isRequestLine l then
          digest receiveTime ⟨.expectHeaders, { r with receiveTime := receiveTime }⟩ ls
        else ({ request := r }, l :: ls, false) := by
  obtain ⟨r, hr⟩ := processRequestLine_fresh l
  refine ⟨r, hr, ?_⟩
  cases hl : isRequestLine l with
  | true =>
    rw [hl] at hr
    simp only [digest, hr, if_true]
  | false =>
    rw [hl] at hr
    simp [digest, hr]

theorem digest_header (hc : c.state = .expectHeaders) (l : List Byte) (ls : List (List Byte)) :
    digest receiveTime c (l :: ls) =
      match findByte 58 l with
      | some p => digest receiveTime { c with request := c.request.addHeader p.1 p.2 } ls
      | none => ({ c with state := .gotAll }, ls, true) := by
  rw [digest, hc]
  cases findByte 58 l <;> rfl

/-- In the headers, while every line has a colon: all of them are taken and the
    head stays open. -/
theorem digest_open (hstate : c.state = .expectHeaders) {ls : List (List Byte)}
    (hcolon : ∀ l ∈ ls, hasColon l = true) :
    (digest receiveTime c ls).1.state = .expectHeaders ∧
      (digest receiveTime c ls).2 = ([], true) := by
  induction ls generalizing c with
  | nil => exact ⟨hstate, rfl⟩
  | cons l ls ih =>
    obtain ⟨p, hp⟩ := Option.isSome_iff_exists.mp (hcolon l List.mem_cons_self)
    rw [digest_header receiveTime hstate, hp]
    exact ih hstate fun m hm => hcolon m (List.mem_cons_of_mem l hm)

/-- The parser stops: it has failed, or the head is complete. -/
def Stops (r : HttpContext × List (List Byte) × Bool) : Prop :=
  r.2.2 = false ∨ r.1.state = .gotAll

instance (r : HttpContext × List (List Byte) × Bool) : Decidable (Stops r) :=
  inferInstanceAs (Decidable (_ ∨ _))

/-- **Digesting in two parts.** While the parser does not stop it leaves nothing
    and goes on where it was; once it has stopped, later lines are left over. -/
theorem digest_append (hc : c.Ready) (ls ms : List (List Byte)) :
    if Stops (digest receiveTime c ls) then
      digest receiveTime c (ls ++ ms) =
        ((digest receiveTime c ls).1, (digest receiveTime c ls).2.1 ++ ms,
          (digest receiveTime c ls).2.2)
    else
      (digest receiveTime c ls).1.Ready ∧ (digest receiveTime c ls).2 = ([], true) ∧
        digest receiveTime c (ls ++ ms) = digest receiveTime (digest receiveTime c ls).1 ms := by
  induction ls generalizing c with
  | nil =>
    have hgo : ¬ Stops (digest receiveTime c []) := by
      rintro (hfalse | hgot)
      · cases hfalse
      · rcases hc with rfl | hc
        · cases hgot
        · change c.state = .gotAll at hgot
          rw [hc] at hgot
          cases hgot
    rw [if_neg hgo]
    exact ⟨hc, rfl, rfl⟩
  | cons l ls ih =>
    rw [List.cons_append]
    rcases hc with rfl | hc
    · obtain ⟨r, hr, hdigest⟩ := digest_request_line receiveTime l ls
      obtain ⟨r', hr', hdigest'⟩ := digest_request_line receiveTime l (ls ++ ms)
      rw [hr] at hr'
      cases hr'
      rw [hdigest, hdigest']
      cases isRequestLine l with
      | true =>
        simp only [if_true]
        exact ih (Or.inr rfl)
      | false =>
        have hstop : Stops (({ request := r } : HttpContext), l :: ls, false) := Or.inl rfl
        simp only [Bool.false_eq_true, if_false, if_pos hstop, List.cons_append]
    · rw [digest_header receiveTime hc, digest_header receiveTime hc]
      cases findByte 58 l with
      | some p => exact ih (Or.inr hc)
      | none =>
        have hstop : Stops ({ c with state := .gotAll }, ls, true) := Or.inr rfl
        simp only [if_pos hstop]

/-- **The parser on a buffer** digests the complete lines; the lines it leaves and
    the unfinished one stay in the buffer. -/
theorem parseRequest_digest {fuel : Nat} (h : b.Valid) (hc : c.Ready)
    (hfuel : b.readable.length < fuel) :
    ∃ b', parseRequest receiveTime fuel c b =
        .ok ((digest receiveTime c (lines b.readable)).1, b',
          (digest receiveTime c (lines b.readable)).2.2) ∧
      b'.Valid ∧ b'.writerIndex ≤ b.writerIndex ∧
      b'.readable = joinLines (digest receiveTime c (lines b.readable)).2.1 ++
        unfinished b.readable := by
  induction fuel generalizing b c with
  | zero => exact absurd hfuel (Nat.not_lt_zero _)
  | succ fuel ih =>
    cases hsearch : Buffer.searchCRLF b.readable with
    | none =>
      have hlines := lines_of_search_none hsearch
      refine ⟨b, ?_, h, le_refl _, ?_⟩
      · rw [hlines]
        rcases hc with rfl | hc
        · simp only [parseRequest, Buffer.findCRLF_none hsearch, digest]
        · simp only [parseRequest, hc, Buffer.findCRLF_none hsearch, digest]
      · rw [hlines, unfinished_of_lines_nil hlines]
        rfl
    | some i =>
      obtain ⟨hfind, hrange, hvalid, hread, hwriter⟩ := h.findCRLF_some hsearch
      obtain ⟨hle, hsplit⟩ := splitLines_of_search hsearch
      have hlines : lines b.readable = b.readable.take i :: lines (b.readable.drop (i + 2)) :=
        congrArg Prod.fst hsplit
      have htail : unfinished b.readable = unfinished (b.readable.drop (i + 2)) := by
        rw [unfinished, hsplit]
      have hless : (b.retrieveUntil (b.peek + i + 2)).readable.length < fuel := by
        rw [hread, List.length_drop]
        omega
      -- the rounds that go on behind this line
      have hgo : ∀ c' : HttpContext, c'.Ready →
          ∃ b', parseRequest receiveTime fuel c' (b.retrieveUntil (b.peek + i + 2)) =
              .ok ((digest receiveTime c' (lines (b.readable.drop (i + 2)))).1, b',
                (digest receiveTime c' (lines (b.readable.drop (i + 2)))).2.2) ∧
            b'.Valid ∧ b'.writerIndex ≤ b.writerIndex ∧
            b'.readable = joinLines (digest receiveTime c'
              (lines (b.readable.drop (i + 2)))).2.1 ++ unfinished b.readable := by
        intro c' hc'
        obtain ⟨b', hok, hv, hw, hr⟩ := ih hvalid hc' hless
        rw [hread] at hok hr
        exact ⟨b', hok, hv, hw.trans hwriter, by rw [hr, htail]⟩
      rw [hlines]
      rcases hc with rfl | hc
      · obtain ⟨r, hr, hdigest⟩ := digest_request_line receiveTime (b.readable.take i)
          (lines (b.readable.drop (i + 2)))
        rw [hdigest]
        cases hl : isRequestLine (b.readable.take i) with
        | true =>
          rw [hl] at hr
          obtain ⟨b', hok, hb'⟩ := hgo ⟨.expectHeaders, { r with receiveTime := receiveTime }⟩
            (Or.inr rfl)
          refine ⟨b', ?_, hb'⟩
          simp only [parseRequest, hfind, hrange, hr, bind, Except.bind, if_true]
          exact hok
        | false =>
          rw [hl] at hr
          refine ⟨b, ?_, h, le_refl _, ?_⟩
          · simp only [parseRequest, hfind, hrange, hr, bind, Except.bind, Bool.false_eq_true,
              if_false]
            rfl
          · simp only [Bool.false_eq_true, if_false]
            rw [← hlines]
            exact (join_lines b.readable).symm
      · rw [digest_header receiveTime hc]
        cases hp : findByte 58 (b.readable.take i) with
        | some p =>
          obtain ⟨b', hok, hb'⟩ := hgo { c with request := c.request.addHeader p.1 p.2 } (Or.inr hc)
          refine ⟨b', ?_, hb'⟩
          simp only [parseRequest, hc, hfind, hrange, hp]
          simp only [hc] at hok
          exact hok
        | none =>
          refine ⟨b.retrieveUntil (b.peek + i + 2), ?_, hvalid, hwriter, ?_⟩
          · simp only [parseRequest, hc, hfind, hrange, hp]
          · rw [hread, htail]
            exact (join_lines _).symm

/-- `parse_request(buf, receive_time)`: a round that goes on has taken a line off
    the buffer, so this many are enough. -/
def parse (c : HttpContext) (b : Buffer) : Except Fault (HttpContext × Buffer × Bool) :=
  parseRequest receiveTime (b.readableBytes + 1) c b

theorem parse_digest (h : b.Valid) (hc : c.Ready) :
    ∃ b', parse receiveTime c b =
        .ok ((digest receiveTime c (lines b.readable)).1, b',
          (digest receiveTime c (lines b.readable)).2.2) ∧
      b'.Valid ∧ b'.writerIndex ≤ b.writerIndex ∧
      b'.readable = joinLines (digest receiveTime c (lines b.readable)).2.1 ++
        unfinished b.readable := by
  apply parseRequest_digest receiveTime h hc
  rw [h.length_readable]
  exact Nat.lt_succ_self _

end HttpContext

end DamnWebServer
