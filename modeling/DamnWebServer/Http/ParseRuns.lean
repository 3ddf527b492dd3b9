import DamnWebServer.Http.Parsing

/-!
# Calls on one parser

Any sequence of `parse_request` and `reset` on one context. A call returns what the
loop returns after enough rounds. Two things go wrong: a request line that is
rejected late has stored its method by then, which the assertion of `set_method`
finds the next time, and in the state `GOT_ALL` the loop has no branch that ends it.
-/

namespace DamnWebServer

namespace HttpContext

variable {t : Int} {c c' : HttpContext} {b b' : Buffer} {fuel : Nat}

/-- `reset()`: the request is swapped with a new one. -/
def reset (_ : HttpContext) : HttpContext := { state := .expectRequestLine, request := {} }

/-- The loop ends after some rounds, with this result. -/
def Ends (t : Int) (c : HttpContext) (b : Buffer)
    (r : Except Fault (HttpContext × Buffer × Bool)) : Prop :=
  r ≠ .error .outOfFuel ∧ ∃ fuel, parseRequest t fuel c b = r

/-- `parse_request` returns: the context and the buffer afterwards, and the result. -/
def Returns (t : Int) (c : HttpContext) (b : Buffer) (r : HttpContext × Buffer × Bool) : Prop :=
  Ends t c b (.ok r)

-- ════════════════════════════════════════════════════════════════════════
-- Rounds
-- ════════════════════════════════════════════════════════════════════════

/-- A loop that has ended does so with more rounds granted as well. -/
theorem parseRequest_succ (h : parseRequest t fuel c b ≠ .error .outOfFuel) :
    parseRequest t (fuel + 1) c b = parseRequest t fuel c b := by
  induction fuel generalizing c b with
  | zero => exact absurd rfl h
  | succ fuel ih =>
    rw [parseRequest]
    rw [parseRequest] at h
    conv_rhs => rw [parseRequest]
    cases hstate : c.state with
    | expectBody | gotAll =>
      simp only [hstate] at h ⊢
      exact ih h
    | expectRequestLine =>
      simp only [hstate] at h ⊢
      cases hfind : b.findCRLF with
      | none => rfl
      | some crlf =>
        simp only [hfind] at h ⊢
        cases hline : c.request.processRequestLine (b.range b.peek crlf) with
        | error f => rfl
        | ok r =>
          rw [hline] at h
          simp only [bind, Except.bind] at h ⊢
          split
          · next hr =>
            rw [if_pos hr] at h
            exact ih h
          · rfl
    | expectHeaders =>
      simp only [hstate] at h ⊢
      cases hfind : b.findCRLF with
      | none => rfl
      | some crlf =>
        simp only [hfind] at h ⊢
        cases hcolon : findByte 58 (b.range b.peek crlf) with
        | none => rfl
        | some p =>
          simp only [hcolon] at h ⊢
          exact ih h

theorem parseRequest_stable (h : parseRequest t fuel c b ≠ .error .outOfFuel) (more : Nat) :
    parseRequest t (fuel + more) c b = parseRequest t fuel c b := by
  induction more with
  | zero => rfl
  | succ more ih =>
    rw [← Nat.add_assoc, parseRequest_succ (by rw [ih]; exact h), ih]

/-- There is one result at most. -/
theorem Ends.unique {r r' : Except Fault (HttpContext × Buffer × Bool)} (h : Ends t c b r)
    (h' : Ends t c b r') : r = r' := by
  obtain ⟨hr, fuel, hfuel⟩ := h
  obtain ⟨hr', fuel', hfuel'⟩ := h'
  rw [← hfuel] at hr
  rw [← hfuel'] at hr'
  have h₁ := parseRequest_stable hr fuel'
  have h₂ := parseRequest_stable hr' fuel
  rw [Nat.add_comm] at h₂
  rw [← hfuel, ← hfuel', ← h₁, h₂]

/-- Once everything was received, no number of rounds is enough. -/
theorem parseRequest_gotAll (h : c.state = .gotAll) (fuel : Nat) :
    parseRequest t fuel c b = .error .outOfFuel := by
  induction fuel with
  | zero => rfl
  | succ fuel ih =>
    rw [parseRequest, h]
    exact ih

-- ════════════════════════════════════════════════════════════════════════
-- One call
-- ════════════════════════════════════════════════════════════════════════

/-- How a call can end on a context that waits for a line. -/
inductive Outcome (c : HttpContext) (b : Buffer) :
    Except Fault (HttpContext × Buffer × Bool) → Prop where
  /-- More is wanted, or the head is complete. -/
  | accepted {c' : HttpContext} {b' : Buffer} (hstate : c'.state ≠ .expectBody)
      (hsame : c'.state = .expectRequestLine → c' = c)
      (hline : ∀ l ls, c.state = .expectRequestLine → lines b.readable = l :: ls →
        ∃ r, c.request.processRequestLine l = .ok (r, true)) : Outcome c b (.ok (c', b', true))
  /-- The first line is rejected. -/
  | rejected {l : List Byte} {ls : List (List Byte)} {r : HttpRequest}
      (hstate : c.state = .expectRequestLine) (hlines : lines b.readable = l :: ls)
      (hline : c.request.processRequestLine l = .ok (r, false)) :
      Outcome c b (.ok ({ c with request := r }, b, false))
  /-- An assertion fails on the first line. -/
  | failed {l : List Byte} {ls : List (List Byte)} {f : Fault}
      (hstate : c.state = .expectRequestLine) (hlines : lines b.readable = l :: ls)
      (hline : c.request.processRequestLine l = .error f) : Outcome c b (.error f)

/-- In the headers nothing fails, and enough rounds are enough. -/
theorem parseRequest_headers (hc : c.state = .expectHeaders) (hb : b.Valid)
    (hfuel : b.readable.length < fuel) :
    ∃ c' b', parseRequest t fuel c b = .ok (c', b', true) ∧
      (c'.state = .expectHeaders ∨ c'.state = .gotAll) := by
  obtain ⟨b', hok, _⟩ := parseRequest_digest t hb (Or.inr hc) hfuel
  by_cases hcolon : ∀ l ∈ lines b.readable, hasColon l = true
  · obtain ⟨hstate, hrest⟩ := digest_open t hc hcolon
    rw [hrest] at hok
    exact ⟨_, b', hok, Or.inl hstate⟩
  · have hend : ∃ l ∈ lines b.readable, hasColon l = false := by
      simpa using hcolon
    obtain ⟨hstate, htrue⟩ := digest_ends t hc hend
    rw [htrue] at hok
    exact ⟨_, b', hok, Or.inr hstate⟩

/-- **One call.** On a context that waits for a line the loop ends, in one of these
    ways. -/
theorem parseRequest_outcome
    (hc : c.state = .expectRequestLine ∨ c.state = .expectHeaders) (hb : b.Valid)
    (hfuel : b.readable.length < fuel) : Outcome c b (parseRequest t fuel c b) := by
  have haccepted : ∀ (c' : HttpContext) (b' : Buffer),
      c'.state = .expectHeaders ∨ c'.state = .gotAll →
      (∀ l ls, c.state = .expectRequestLine → lines b.readable = l :: ls →
        ∃ r, c.request.processRequestLine l = .ok (r, true)) →
      Outcome c b (.ok (c', b', true)) := by
    intro c' b' hstate hline
    refine .accepted ?_ ?_ hline <;> intro hno <;> rw [hno] at hstate <;> simp at hstate
  rcases hc with hc | hc
  · obtain ⟨fuel, rfl⟩ : ∃ n, fuel = n + 1 := ⟨fuel - 1, by omega⟩
    cases hsearch : Buffer.searchCRLF b.readable with
    | none =>
      have hwait : parseRequest t (fuel + 1) c b = .ok (c, b, true) := by
        simp only [parseRequest, hc, Buffer.findCRLF_none hsearch]
      rw [hwait]
      refine .accepted (by simp [hc]) (fun _ => rfl) ?_
      intro l ls _ hlines
      rw [lines_of_search_none hsearch] at hlines
      cases hlines
    | some i =>
      obtain ⟨hfind, hrange, hvalid, hread, _⟩ := hb.findCRLF_some hsearch
      obtain ⟨hle, hsplit⟩ := splitLines_of_search hsearch
      have hlines : lines b.readable = b.readable.take i :: lines (b.readable.drop (i + 2)) :=
        congrArg Prod.fst hsplit
      have hround : parseRequest t (fuel + 1) c b = (do
          let r ← c.request.processRequestLine (b.readable.take i)
          if r.2 then
            parseRequest t fuel ⟨.expectHeaders, { r.1 with receiveTime := t }⟩
              (b.retrieveUntil (b.peek + i + 2))
          else return ({ c with request := r.1 }, b, false)) := by
        simp only [parseRequest, hc, hfind, hrange]
      rw [hround]
      cases hline : c.request.processRequestLine (b.readable.take i) with
      | error f => exact .failed hc hlines hline
      | ok r =>
        obtain ⟨r, ok⟩ := r
        cases ok with
        | false => exact .rejected hc hlines hline
        | true =>
          -- the line is taken, and the headers follow
          have hless : (b.retrieveUntil (b.peek + i + 2)).readable.length < fuel := by
            rw [hread, List.length_drop]
            omega
          obtain ⟨c', b', hok, hstate⟩ := parseRequest_headers (t := t)
            (c := ⟨.expectHeaders, { r with receiveTime := t }⟩) rfl hvalid hless
          change Outcome c b (parseRequest t fuel _ _)
          rw [hok]
          refine haccepted c' b' hstate ?_
          intro l ls _ hl
          rw [hlines] at hl
          cases hl
          exact ⟨r, hline⟩
  · obtain ⟨c', b', hok, hstate⟩ := parseRequest_headers (t := t) hc hb hfuel
    rw [hok]
    refine haccepted c' b' hstate ?_
    intro l ls hno _
    rw [hc] at hno
    cases hno

end HttpContext

-- ════════════════════════════════════════════════════════════════════════
-- What a rejected line leaves behind
-- ════════════════════════════════════════════════════════════════════════

/-- The line has a blank, and before the first one the name of a method. -/
def startsWithMethod (line : List Byte) : Bool :=
  match findByte 32 line with
  | some p => HttpRequest.methodOf p.1 ≠ .invalid
  | none => false

namespace HttpRequest

variable {r r' : HttpRequest} {line : List Byte}

theorem setMethod_invalid (h : r.method = .invalid) (m : List Byte) :
    r.setMethod m = .ok ({ r with method := methodOf m }, decide (methodOf m ≠ .invalid)) := by
  rw [setMethod, h]
  rfl

theorem setTarget_method (r : HttpRequest) (target : List Byte) :
    (r.setTarget target).method = r.method := by
  unfold setTarget
  split <;> rfl

/-- Whether a version is accepted does not depend on the request. -/
theorem setVersion_uniform (text : List Byte) :
    ∃ ok, ∀ r : HttpRequest, (r.setVersion text).2 = ok ∧ (r.setVersion text).1.method = r.method := by
  unfold setVersion
  split
  · split
    · exact ⟨true, fun _ => ⟨rfl, rfl⟩⟩
    · split
      · exact ⟨true, fun _ => ⟨rfl, rfl⟩⟩
      · exact ⟨false, fun _ => ⟨rfl, rfl⟩⟩
  · exact ⟨false, fun _ => ⟨rfl, rfl⟩⟩

/-- A line that does not begin with a method changes nothing. -/
theorem processRequestLine_no_method (hline : startsWithMethod line = false)
    (h : r.method = .invalid) : r.processRequestLine line = .ok (r, false) := by
  unfold startsWithMethod at hline
  unfold processRequestLine
  cases hblank : findByte 32 line with
  | none => rfl
  | some p =>
    rw [hblank] at hline
    have hmethod : methodOf p.1 = .invalid := by simpa using hline
    have hsame : ({ r with method := Method.invalid } : HttpRequest) = r := by rw [← h]
    simp only [setMethod_invalid h, hmethod, hsame, bind, Except.bind]
    rfl

/-- One that does stores it, whatever comes of the rest. -/
theorem processRequestLine_method (hline : startsWithMethod line = true) :
    ∃ ok, ∀ r : HttpRequest, r.method = .invalid →
      ∃ r', r.processRequestLine line = .ok (r', ok) ∧ r'.method ≠ .invalid := by
  unfold startsWithMethod at hline
  unfold processRequestLine
  cases hblank : findByte 32 line with
  | none =>
    rw [hblank] at hline
    cases hline
  | some p =>
    rw [hblank] at hline
    have hmethod : methodOf p.1 ≠ .invalid := by simpa using hline
    cases hspace : findByte 32 p.2 with
    | none =>
      refine ⟨false, fun r h => ⟨{ r with method := methodOf p.1 }, ?_, hmethod⟩⟩
      simp only [setMethod_invalid h, bind, Except.bind, hspace, hmethod, ne_eq, not_false_eq_true,
        decide_true, if_true]
      rfl
    | some q =>
      obtain ⟨ok, hversion⟩ := setVersion_uniform q.2
      refine ⟨ok, fun r h => ?_⟩
      obtain ⟨hok, hkept⟩ := hversion (({ r with method := methodOf p.1 } : HttpRequest).setTarget q.1)
      rw [setTarget_method] at hkept
      refine ⟨_, ?_, hkept.trans_ne hmethod⟩
      simp only [setMethod_invalid h, bind, Except.bind, hspace, hmethod, ne_eq, not_false_eq_true,
        decide_true, if_true]
      rw [← hok]
      rfl

/-- **A line for a request without a method.** Rejected after its method, the line
    leaves that method; rejected before, nothing. -/
theorem processRequestLine_invalid (h : r.method = .invalid) (line : List Byte) :
    ∃ r', r.processRequestLine line = .ok (r', isRequestLine line) ∧
      (isRequestLine line = false → (r' = r ↔ startsWithMethod line = false)) := by
  cases hline : startsWithMethod line with
  | false =>
    have hno : isRequestLine line = false := by
      rw [isRequestLine, processRequestLine_no_method hline rfl]
    exact ⟨r, by rw [processRequestLine_no_method hline h, hno], fun _ => ⟨fun _ => rfl, fun _ => rfl⟩⟩
  | true =>
    obtain ⟨ok, hall⟩ := processRequestLine_method hline
    have hok : isRequestLine line = ok := by
      obtain ⟨_, hfresh, _⟩ := hall {} rfl
      rw [isRequestLine, hfresh]
    obtain ⟨r', hr', hmethod⟩ := hall r h
    refine ⟨r', by rw [hr', hok], fun _ => ⟨?_, fun hno => by cases hno⟩⟩
    rintro rfl
    exact absurd h hmethod

/-- **A line for a request that has a method**: the assertion of `set_method` fails
    if there is a blank, and else the line is rejected at once. -/
theorem processRequestLine_leftover (h : r.method ≠ .invalid) (line : List Byte) :
    r.processRequestLine line = .ok (r, false) ∨
      r.processRequestLine line = .error (.assertion "method_ == INVALID") := by
  unfold processRequestLine
  cases findByte 32 line with
  | none => exact Or.inl rfl
  | some p =>
    refine Or.inr ?_
    have hset : r.setMethod p.1 = .error (.assertion "method_ == INVALID") := by
      simp [setMethod, require, h, bind, Except.bind]
    simp only [hset, bind, Except.bind]

end HttpRequest

namespace HttpContext

variable {t : Int} {c c' : HttpContext} {b b' : Buffer}

-- ════════════════════════════════════════════════════════════════════════
-- Sequences of calls
-- ════════════════════════════════════════════════════════════════════════

/-- The calls on a context. -/
inductive Call where
  | parseRequest (receiveTime : Int) (buf : Buffer)
  | reset

/-- Any calls from a fresh context on, with any buffers. A call that does not return
    is the last one. -/
def calls : Transition.System HttpContext Call where
  init c := c = {}
  step c l c' :=
    match l with
    | .parseRequest t b => b.Valid ∧ ∃ b' ok, Returns t c b (c', b', ok)
    | .reset => c' = c.reset

theorem waits (hbody : c.state ≠ .expectBody) (hgot : c.state ≠ .gotAll) :
    c.state = .expectRequestLine ∨ c.state = .expectHeaders := by
  cases hstate : c.state with
  | expectRequestLine => exact Or.inl rfl
  | expectHeaders => exact Or.inr rfl
  | expectBody => exact absurd hstate hbody
  | gotAll => exact absurd hstate hgot

/-- A waiting context ends its call in one of the three ways. -/
theorem ends_outcome (hc : c.state = .expectRequestLine ∨ c.state = .expectHeaders)
    (hb : b.Valid) (t : Int) : ∃ r, Ends t c b r ∧ Outcome c b r := by
  have hout := parseRequest_outcome (t := t) hc hb (Nat.lt_succ_self _)
  refine ⟨_, ⟨?_, _, rfl⟩, hout⟩
  intro hfuel
  rw [hfuel] at hout
  cases hout with
  | failed hstate hlines hline =>
    by_cases hmethod : c.request.method = .invalid
    · obtain ⟨r, hr, _⟩ := HttpRequest.processRequestLine_invalid hmethod _
      rw [hr] at hline
      cases hline
    · rcases HttpRequest.processRequestLine_leftover hmethod _ with hr | hr
      · rw [hr] at hline
        cases hline
      · rw [hr] at hline
        cases hline

theorem not_ends_gotAll (h : c.state = .gotAll) (r : Except Fault (HttpContext × Buffer × Bool)) :
    ¬Ends t c b r := by
  rintro ⟨hr, fuel, rfl⟩
  exact hr (parseRequest_gotAll h fuel)

/-- What returns, returns by one of the three ways. -/
theorem Returns.outcome (hbody : c.state ≠ .expectBody) (hb : b.Valid)
    {r : HttpContext × Buffer × Bool} (h : Returns t c b r) : Outcome c b (.ok r) := by
  have hgot : c.state ≠ .gotAll := fun hgot => not_ends_gotAll hgot _ h
  obtain ⟨r', hends, hout⟩ := ends_outcome (waits hbody hgot) hb t
  cases hends.unique h
  exact hout

/-- `EXPECT_BODY` is entered by nobody. -/
theorem reachable_not_body (h : calls.Reachable c) : c.state ≠ .expectBody := by
  refine h.invariant (I := fun c => c.state ≠ .expectBody) ?_ ?_
  · rintro _ rfl hbody
    cases hbody
  · intro c l c' hc hstep
    cases l with
    | parseRequest t b =>
      obtain ⟨hb, b', ok, hret⟩ := hstep
      cases hret.outcome hc hb with
      | accepted hstate _ _ => exact hstate
      | rejected _ _ _ => exact hc
    | reset =>
      cases hstep
      intro hbody
      cases hbody

/-- The condition: a first line that begins with a method is a request line, if one
    is expected. -/
def Clean (c : HttpContext) (b : Buffer) : Prop :=
  c.state = .expectRequestLine → c.request.method = .invalid →
    ∀ l ∈ (lines b.readable).head?, startsWithMethod l = true → IsRequestLine l

instance (c : HttpContext) (b : Buffer) : Decidable (c.Clean b) :=
  inferInstanceAs (Decidable (_ → _ → _))

/-- The condition of a call. -/
def CleanCall (c : HttpContext) : Call → Prop
  | .parseRequest _ b => c.Clean b
  | .reset => True

/-- A failed parse leaves no trace under the condition. -/
theorem Returns.no_trace (hbody : c.state ≠ .expectBody) (hb : b.Valid) (hclean : c.Clean b)
    (h : Returns t c b (c', b', false)) : c' = c ∧ b'.readable = b.readable := by
  cases h.outcome hbody hb with
  | @rejected l ls r hstate hlines hline =>
    have hsame : r = c.request := by
      by_cases hmethod : c.request.method = .invalid
      · obtain ⟨r', hr', htrace⟩ := HttpRequest.processRequestLine_invalid hmethod l
        rw [hline] at hr'
        obtain ⟨rfl, hno⟩ := Prod.mk.inj (Except.ok.inj hr')
        refine (htrace hno.symm).mpr ?_
        by_contra hstarts
        have hreq := hclean hstate hmethod l (by rw [hlines]; rfl) (by simpa using hstarts)
        exact isRequestLine_eq_false.mp hno.symm hreq
      · rcases HttpRequest.processRequestLine_leftover hmethod l with hr' | hr'
        · rw [hr'] at hline
          cases hline
          rfl
        · rw [hr'] at hline
          cases hline
    exact ⟨by rw [hsame], rfl⟩

/-- Without it the context keeps the method. -/
theorem no_trace_iff (hbody : c.state ≠ .expectBody) (hb : b.Valid) :
    (∀ c' b', Returns t c b (c', b', false) → c' = c ∧ b'.readable = b.readable) ↔ c.Clean b := by
  refine ⟨?_, fun hclean c' b' h => h.no_trace hbody hb hclean⟩
  intro hall hstate hmethod l hl hstarts
  by_contra hline
  have hreq := isRequestLine_eq_false.mpr hline
  obtain ⟨ls, hlines⟩ : ∃ ls, lines b.readable = l :: ls := List.head?_eq_some_iff.mp hl
  obtain ⟨r', hr', htrace⟩ := HttpRequest.processRequestLine_invalid hmethod l
  rw [hreq] at hr'
  obtain ⟨res, hends, hout⟩ := ends_outcome (Or.inl hstate) hb t
  cases hout with
  | accepted _ _ hgo =>
    obtain ⟨r, hr⟩ := hgo l ls hstate hlines
    rw [hr'] at hr
    cases hr
  | rejected _ hlines' hline =>
    rw [hlines] at hlines'
    cases hlines'
    rw [hr'] at hline
    cases hline
    have hsame := congrArg HttpContext.request (hall _ _ hends).1
    have hno := (htrace hreq).mp hsame
    rw [hno] at hstarts
    cases hstarts
  | failed _ hlines' hline =>
    rw [hlines] at hlines'
    cases hlines'
    rw [hr'] at hline
    cases hline

/-- After clean calls a context that expects a request line has no method. -/
theorem clean_reachable (h : (calls.restrict CleanCall).Reachable c) :
    c.state ≠ .expectBody ∧ (c.state = .expectRequestLine → c.request.method = .invalid) := by
  refine h.invariant (I := fun c => c.state ≠ .expectBody ∧
    (c.state = .expectRequestLine → c.request.method = .invalid)) ?_ ?_
  · rintro _ rfl
    exact ⟨(fun hbody => by cases hbody), fun _ => rfl⟩
  · rintro c l c' ⟨hbody, hmethod⟩ ⟨hclean, hstep⟩
    cases l with
    | parseRequest t b =>
      obtain ⟨hb, b', ok, hret⟩ := hstep
      cases ok with
      | true =>
        cases hret.outcome hbody hb with
        | accepted hstate hsame _ =>
          refine ⟨hstate, fun hline => ?_⟩
          have hkept := hsame hline
          rw [hkept] at hline ⊢
          exact hmethod hline
      | false =>
        rw [(hret.no_trace hbody hb hclean).1]
        exact ⟨hbody, hmethod⟩
    | reset =>
      cases hstep
      exact ⟨(fun hbody => by cases hbody), fun _ => rfl⟩

/-- **A failed parse leaves no trace**, on any context that calls can lead to, if and
    only if the condition holds for that call; and after calls that all met it, every
    further one on a context that has not got everything returns, so no assertion
    fails. -/
theorem failed_parse_no_trace_iff (c : HttpContext) (t : Int) {b : Buffer} (hb : b.Valid) :
    (calls.Reachable c →
        ((∀ c' b', Returns t c b (c', b', false) → c' = c ∧ b'.readable = b.readable) ↔
          c.Clean b)) ∧
      ((calls.restrict CleanCall).Reachable c → c.gotAll = false → ∃ r, Returns t c b r) := by
  refine ⟨fun hc => no_trace_iff (reachable_not_body hc) hb, ?_⟩
  intro hc hgot
  obtain ⟨hbody, hmethod⟩ := clean_reachable hc
  obtain ⟨r, hends, hout⟩ := ends_outcome (waits hbody (of_decide_eq_false hgot)) hb t
  cases hout with
  | accepted _ _ _ => exact ⟨_, hends⟩
  | rejected _ _ _ => exact ⟨_, hends⟩
  | failed hstate _ hline =>
    obtain ⟨r', hr', _⟩ := HttpRequest.processRequestLine_invalid (hmethod hstate) _
    rw [hr'] at hline
    cases hline

theorem fresh_reachable : calls.Reachable {} := ⟨{}, [], rfl, .nil⟩

/-- What a call returns, by evaluation with some rounds. -/
theorem returns_of_eval {r : HttpContext × Buffer × Bool} (fuel : Nat)
    (h : (parseRequest t fuel c b).toOption = some r) : Returns t c b r :=
  ⟨(fun hno => by cases hno), fuel, eq_ok_of_toOption h⟩

/-- A line that begins with no method is rejected without a trace. -/
theorem failed_parse_no_trace_iff_sample :
    ({} : HttpContext).Clean (.holding (ascii "FETCH / HTTP/1.1\r\n")) ∧
      ∃ c' b', Returns 0 {} (.holding (ascii "FETCH / HTTP/1.1\r\n")) (c', b', false) ∧ c' = {} := by
  have hb : (Buffer.holding (ascii "FETCH / HTTP/1.1\r\n")).Valid :=
    Buffer.holding_valid (by decide)
  have hclean : ({} : HttpContext).Clean (.holding (ascii "FETCH / HTTP/1.1\r\n")) := by decide
  have hret : Returns 0 {} (.holding (ascii "FETCH / HTTP/1.1\r\n"))
      ({}, .holding (ascii "FETCH / HTTP/1.1\r\n"), false) := returns_of_eval 1 (by decide)
  have hiff := (failed_parse_no_trace_iff {} 0 hb).1 fresh_reachable
  exact ⟨hclean, _, _, hret, (hiff.mpr hclean _ _ hret).1⟩

/-- `GET /` without a version is rejected and leaves its method, and the request line
    that follows fails the assertion. -/
theorem failed_parse_leaves_method :
    (¬∀ c, calls.Reachable c → ∀ t b, b.Valid → ∀ c' b', Returns t c b (c', b', false) →
        c' = c ∧ b'.readable = b.readable) ∧
      ¬∀ c, calls.Reachable c → c.gotAll = false → ∀ t b, b.Valid → ∀ text,
        ¬Ends t c b (.error (.assertion text)) := by
  have hb : (Buffer.holding (ascii "GET /\r\n")).Valid := Buffer.holding_valid (by decide)
  have hret : Returns 0 {} (.holding (ascii "GET /\r\n"))
      (⟨.expectRequestLine, { method := .get }⟩, .holding (ascii "GET /\r\n"), false) :=
    returns_of_eval 1 (by decide)
  refine ⟨fun hsame => ?_, fun hnever => ?_⟩
  · have hno := (hsame {} fresh_reachable 0 _ hb _ _ hret).1
    cases hno
  · have hstep : calls.step {} (.parseRequest 0 (.holding (ascii "GET /\r\n")))
        ⟨.expectRequestLine, { method := .get }⟩ := ⟨hb, _, _, hret⟩
    have hnext : (Buffer.holding (ascii "GET / HTTP/1.1\r\n")).Valid :=
      Buffer.holding_valid (by decide)
    refine hnever _ ⟨{}, _, rfl, .single hstep⟩ rfl 0 _ hnext "method_ == INVALID" ⟨?_, 1, rfl⟩
    intro hno
    cases hno

/-- **The parse loop ends** on a context that calls can lead to, if and only if it
    has not got everything. -/
theorem parse_ends_iff (h : calls.Reachable c) (hb : b.Valid) (t : Int) :
    (∃ r, Ends t c b r) ↔ c.gotAll = false := by
  have hbody := reachable_not_body h
  constructor
  · rintro ⟨r, hends⟩
    by_contra hgot
    rw [Bool.not_eq_false] at hgot
    exact not_ends_gotAll (of_decide_eq_true hgot) r hends
  · intro hgot
    obtain ⟨r, hends, _⟩ := ends_outcome (waits hbody (of_decide_eq_false hgot)) hb t
    exact ⟨r, hends⟩

theorem parse_ends_iff_sample :
    ({} : HttpContext).gotAll = false ∧
      ∃ r, Ends 0 {} (.holding (ascii "GET / HTTP/1.1\r\nHost: a\r\n")) r := by
  have hb : (Buffer.holding (ascii "GET / HTTP/1.1\r\nHost: a\r\n")).Valid :=
    Buffer.holding_valid (by decide)
  exact ⟨rfl, (parse_ends_iff fresh_reachable hb 0).mpr rfl⟩

/-- After a whole request the next call spins. -/
theorem parse_spins_after_request :
    ¬∀ c, calls.Reachable c → ∀ t b, b.Valid → ∃ r, Ends t c b r := by
  intro hall
  let b : Buffer := .holding (ascii "GET / HTTP/1.1\r\n\r\n")
  have hb : b.Valid := Buffer.holding_valid (by decide)
  have hval : (parseRequest 0 2 {} b).toOption.map (fun r => r.1.state) = some .gotAll := by decide
  obtain ⟨⟨c, b', ok⟩, hr, hgot⟩ := Option.map_eq_some_iff.mp hval
  have hstep : calls.step {} (.parseRequest 0 b) c := ⟨hb, b', ok, returns_of_eval 2 hr⟩
  obtain ⟨r, hends⟩ := hall c ⟨{}, [.parseRequest 0 b], rfl, .single hstep⟩ 0 b hb
  exact not_ends_gotAll hgot r hends

end HttpContext

end DamnWebServer
