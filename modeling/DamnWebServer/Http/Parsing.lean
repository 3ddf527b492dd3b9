import DamnWebServer.Http.RequestLine
import DamnWebServer.Http.Server

/-!
# What one call of `on_message` does

One lemma for each way the parse of the readable bytes can end: no complete
line, a first line that is no request line, a head that stays open, a request.
-/

namespace DamnWebServer

namespace HttpContext

variable (receiveTime : Int) {c : HttpContext}

/-- In the headers, with a line that has no colon: the head ends. -/
theorem digest_ends (hstate : c.state = .expectHeaders) {ls : List (List Byte)}
    (hend : ∃ l ∈ ls, hasColon l = false) :
    (digest receiveTime c ls).1.state = .gotAll ∧ (digest receiveTime c ls).2.2 = true := by
  induction ls generalizing c with
  | nil =>
    obtain ⟨l, hl, _⟩ := hend
    cases hl
  | cons l ls ih =>
    rw [digest_header receiveTime hstate]
    cases hp : findByte 58 l with
    | none => exact ⟨rfl, rfl⟩
    | some p =>
      refine ih (c := { c with request := c.request.addHeader p.1 p.2 }) hstate ?_
      obtain ⟨m, hm, hno⟩ := hend
      rcases List.mem_cons.mp hm with rfl | hm
      · rw [hasColon, hp] at hno
        cases hno
      · exact ⟨m, hm, hno⟩

end HttpContext

namespace HttpServer

variable (callback : HttpCallback) (receiveTime : Int) {b : Buffer}

/-- Nothing happens before the first line is complete. -/
theorem onMessage_no_line (h : lines b.readable = []) :
    onMessage callback b receiveTime = (b, []) := by
  have hsearch : Buffer.searchCRLF b.readable = none := by
    by_contra hne
    obtain ⟨i, hi⟩ := Option.ne_none_iff_exists'.mp hne
    rw [lines, (splitLines_of_search hi).2] at h
    cases h
  simp only [onMessage, HttpContext.parseRequest, Buffer.findCRLF_none hsearch]
  rfl

/-- A first line that is no request line is answered and left where it is. -/
theorem onMessage_bad_line (hb : b.Valid) {l : List Byte} {ls : List (List Byte)}
    (h : lines b.readable = l :: ls) (hl : isRequestLine l = false) :
    onMessage callback b receiveTime = (b, [.send badRequest, .shutdown]) := by
  cases hsearch : Buffer.searchCRLF b.readable with
  | none =>
    rw [lines_of_search_none hsearch] at h
    cases h
  | some i =>
    obtain ⟨hfind, hrange, _⟩ := hb.findCRLF_some hsearch
    have htake : b.readable.take i = l := by
      rw [lines, (splitLines_of_search hsearch).2] at h
      exact (List.cons.inj h).1
    obtain ⟨r, hr⟩ := processRequestLine_fresh l
    rw [hl] at hr
    simp only [onMessage, HttpContext.parseRequest, hfind, hrange, htake, hr, bind, Except.bind]
    rfl

/-- The parse of a buffer that begins with a request line goes on in the headers. -/
theorem onMessage_request_line (hb : b.Valid) {l : List Byte} {ls : List (List Byte)}
    (h : lines b.readable = l :: ls) (hl : isRequestLine l = true) :
    ∃ c b', c.state = .expectHeaders ∧ b'.Valid ∧
      b'.readable = joinLines (HttpContext.digest receiveTime c ls).2.1 ++ unfinished b.readable ∧
      HttpContext.parseRequest receiveTime (b.readableBytes + 1) {} b =
        .ok ((HttpContext.digest receiveTime c ls).1, b',
          (HttpContext.digest receiveTime c ls).2.2) := by
  obtain ⟨b', hok, hv, _, hr⟩ := HttpContext.parse_digest receiveTime (c := {}) hb (Or.inl rfl)
  obtain ⟨r, _, hdigest⟩ := HttpContext.digest_request_line receiveTime l ls
  rw [if_pos hl] at hdigest
  rw [h, hdigest] at hok hr
  exact ⟨_, b', rfl, hv, hr, hok⟩

/-- A request line with headers only: the lines are gone and nobody is told. -/
theorem onMessage_open (hb : b.Valid) {l : List Byte} {ls : List (List Byte)}
    (h : lines b.readable = l :: ls) (hl : isRequestLine l = true)
    (hcolon : ∀ l ∈ ls, hasColon l = true) :
    ∃ b', onMessage callback b receiveTime = (b', []) ∧ b'.Valid ∧
      b'.readable = unfinished b.readable := by
  obtain ⟨c, b', hc, hv, hr, hok⟩ := onMessage_request_line receiveTime hb h hl
  obtain ⟨hst, hrest⟩ := HttpContext.digest_open receiveTime hc hcolon
  rw [hrest] at hr hok
  refine ⟨b', ?_, hv, hr⟩
  simp only [onMessage, hok, HttpContext.gotAll, hst]
  rfl

/-- A request line, headers and a line without a colon: one request. -/
theorem onMessage_request (hb : b.Valid) {l : List Byte} {ls : List (List Byte)}
    (h : lines b.readable = l :: ls) (hl : isRequestLine l = true)
    (hend : ∃ l ∈ ls, hasColon l = false) :
    ∃ req b', onMessage callback b receiveTime = (b', onRequest callback req) := by
  obtain ⟨c, b', hc, _, _, hok⟩ := onMessage_request_line receiveTime hb h hl
  obtain ⟨hst, htrue⟩ := HttpContext.digest_ends receiveTime hc hend
  rw [htrue] at hok
  refine ⟨(HttpContext.digest receiveTime c ls).1.request, b', ?_⟩
  simp only [onMessage, hok, HttpContext.gotAll, hst, decide_true, if_true,
    List.nil_append]

end HttpServer

end DamnWebServer
