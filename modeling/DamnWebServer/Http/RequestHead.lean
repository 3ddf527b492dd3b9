import DamnWebServer.Http.RequestLine

/-!
# Request heads

The grammar of a request head, and how `parse_request` compares with it: it
accepts every head of the grammar and eats exactly that, it reads back what was
printed, and it accepts one thing more, a head that is cut short by a line without
a colon.
-/

namespace DamnWebServer

/-- A header line: not empty, and with a colon. -/
def IsHeaderLine (line : List Byte) : Prop := line ≠ [] ∧ 58 ∈ line ∧ NoCRLF line

/-- A request head: `request-line CRLF (header-line CRLF)* CRLF`. -/
def IsHead (head : List Byte) : Prop :=
  ∃ line headers, IsRequestLine line ∧ NoCRLF line ∧ (∀ h ∈ headers, IsHeaderLine h) ∧
    head = line ++ [13, 10] ++ joinLines headers ++ [13, 10]

-- ════════════════════════════════════════════════════════════════════════
-- Lines
-- ════════════════════════════════════════════════════════════════════════

theorem splitLines_joinLines {ls : List (List Byte)} (h : ∀ l ∈ ls, NoCRLF l) (rest : List Byte) :
    splitLines (joinLines ls ++ rest) = (ls ++ lines rest, unfinished rest) := by
  induction ls with
  | nil => rfl
  | cons l ls ih =>
    have hl := noCRLF_iff.mp (h l List.mem_cons_self)
    have hrest := ih fun m hm => h m (List.mem_cons_of_mem l hm)
    have hjoin : joinLines (l :: ls) ++ rest = l ++ 13 :: 10 :: (joinLines ls ++ rest) := by
      simp [joinLines]
    rw [hjoin, splitLines_line hl, lines, unfinished, hrest]
    rfl

theorem hasColon_iff {line : List Byte} : hasColon line = true ↔ 58 ∈ line := by
  rw [hasColon, Option.isSome_iff_ne_none, ne_eq, findByte_eq_none, not_not]

/-- The lines of a stream that begins with a head. -/
theorem lines_of_head {head line : List Byte} {headers : List (List Byte)} (rest : List Byte)
    (hline : NoCRLF line) (hheaders : ∀ h ∈ headers, IsHeaderLine h)
    (hhead : head = line ++ [13, 10] ++ joinLines headers ++ [13, 10]) :
    lines (head ++ rest) = line :: headers ++ [] :: lines rest ∧
      unfinished (head ++ rest) = unfinished rest := by
  have hall : ∀ l ∈ line :: headers ++ [[]], NoCRLF l := by
    intro l hl
    simp only [List.cons_append, List.mem_cons, List.mem_append] at hl
    rcases hl with rfl | hl | rfl | hl
    · exact hline
    · exact (hheaders l hl).2.2
    · rw [noCRLF_iff]
      rfl
    · cases hl
  have hjoin : head ++ rest = joinLines (line :: headers ++ [[]]) ++ rest := by
    rw [hhead, joinLines_append]
    simp [joinLines]
  have hsplit := splitLines_joinLines hall rest
  rw [lines, unfinished, hjoin, hsplit]
  simp

namespace HttpContext

variable (receiveTime : Int) {c : HttpContext} {b : Buffer}

-- ════════════════════════════════════════════════════════════════════════
-- The grammar
-- ════════════════════════════════════════════════════════════════════════

/-- The headers up to the first line without a colon. -/
theorem digest_headers (hc : c.state = .expectHeaders) {headers : List (List Byte)}
    (hcolon : ∀ h ∈ headers, 58 ∈ h) {last : List Byte} (hlast : 58 ∉ last)
    (more : List (List Byte)) :
    ∃ c', digest receiveTime c (headers ++ last :: more) = (c', more, true) ∧
      c'.state = .gotAll := by
  induction headers generalizing c with
  | nil =>
    rw [List.nil_append, digest_header receiveTime hc, findByte_eq_none.mpr hlast]
    exact ⟨_, rfl, rfl⟩
  | cons h headers ih =>
    obtain ⟨p, hp⟩ := Option.isSome_iff_exists.mp (hasColon_iff.mpr (hcolon h List.mem_cons_self))
    rw [List.cons_append, digest_header receiveTime hc, hp]
    exact ih (c := { c with request := c.request.addHeader p.1 p.2 }) hc
      fun m hm => hcolon m (List.mem_cons_of_mem h hm)

/-- A request line, headers, and a line that ends them. -/
theorem digest_whole {line : List Byte} (hline : IsRequestLine line) {headers : List (List Byte)}
    (hcolon : ∀ h ∈ headers, 58 ∈ h) {last : List Byte} (hlast : 58 ∉ last)
    (more : List (List Byte)) :
    ∃ c', digest receiveTime {} (line :: headers ++ last :: more) = (c', more, true) ∧
      c'.state = .gotAll := by
  obtain ⟨r, _, hdigest⟩ := digest_request_line receiveTime line (headers ++ last :: more)
  rw [if_pos (isRequestLine_iff.mpr hline)] at hdigest
  rw [List.cons_append, hdigest]
  exact digest_headers receiveTime rfl hcolon hlast more

theorem digest_head {head : List Byte} (hhead : IsHead head) (rest : List Byte) :
    ∃ c', digest receiveTime {} (lines (head ++ rest)) = (c', lines rest, true) ∧
      c'.state = .gotAll ∧ unfinished (head ++ rest) = unfinished rest := by
  obtain ⟨line, headers, hline, hno, hheaders, heq⟩ := hhead
  obtain ⟨hlines, hunf⟩ := lines_of_head rest hno hheaders heq
  have hcolon : ∀ h ∈ headers, 58 ∈ h := fun h hh => (hheaders h hh).2.1
  obtain ⟨c', hdigest, hgot⟩ := digest_whole receiveTime hline hcolon
    (List.not_mem_nil (a := 58)) (lines rest)
  rw [hlines]
  exact ⟨c', hdigest, hgot, hunf⟩

/-- `parse_request` on a fresh context ends with `got_all()` exactly when the bytes
    begin with a request head, and then it has consumed that head. -/
def AcceptsHeads (b : Buffer) : Prop :=
  ∃ c b' ok, parse receiveTime {} b = .ok (c, b', ok) ∧
    (c.gotAll = true ↔ ∃ head rest, IsHead head ∧ b.readable = head ++ rest) ∧
    ∀ head rest, IsHead head → b.readable = head ++ rest → b'.readable = rest

/-- The first complete line is a request line, and the first complete line after it
    that has no colon is not empty. -/
def CutShort (bs : List Byte) : Prop :=
  ∃ line headers last more, lines bs = line :: headers ++ last :: more ∧ IsRequestLine line ∧
    (∀ h ∈ headers, 58 ∈ h) ∧ 58 ∉ last ∧ last ≠ []

/-- Two cuts at the first line without a colon are the same cut. -/
theorem first_without_colon {hs hs' : List (List Byte)} {x y : List Byte}
    {xs ys : List (List Byte)} (heq : hs ++ x :: xs = hs' ++ y :: ys) (hhs : ∀ h ∈ hs, 58 ∈ h)
    (hhs' : ∀ h ∈ hs', 58 ∈ h) (hx : 58 ∉ x) (hy : 58 ∉ y) : x = y := by
  induction hs generalizing hs' with
  | nil =>
    cases hs' with
    | nil => exact (List.cons.inj heq).1
    | cons h' hs' =>
      rw [(List.cons.inj heq).1] at hx
      exact absurd (hhs' h' List.mem_cons_self) hx
  | cons h hs ih =>
    cases hs' with
    | nil =>
      rw [← (List.cons.inj heq).1] at hy
      exact absurd (hhs h List.mem_cons_self) hy
    | cons h' hs' =>
      exact ih (List.cons.inj heq).2 (fun m hm => hhs m (List.mem_cons_of_mem h hm))
        fun m hm => hhs' m (List.mem_cons_of_mem h' hm)

/-- A head that is cut short is no head of the grammar. -/
theorem not_head_of_cutShort {bs : List Byte} (h : CutShort bs) :
    ¬ ∃ head rest, IsHead head ∧ bs = head ++ rest := by
  rintro ⟨head, rest, ⟨line', headers', _, hno, hheaders, heq⟩, rfl⟩
  obtain ⟨line, headers, last, more, hlines, _, hcolon, hlast, hne⟩ := h
  have hlines' := (lines_of_head rest hno hheaders heq).1
  rw [hlines, List.cons_append, List.cons_append] at hlines'
  apply hne
  exact first_without_colon (List.cons.inj hlines').2 hcolon (fun h hh => (hheaders h hh).2.1) hlast
    List.not_mem_nil

/-- Either every line has a colon, or there is a first one without. -/
theorem cut_without_colon (ls : List (List Byte)) :
    (∀ l ∈ ls, 58 ∈ l) ∨ ∃ headers last more, ls = headers ++ last :: more ∧
      (∀ h ∈ headers, 58 ∈ h) ∧ 58 ∉ last := by
  induction ls with
  | nil => exact Or.inl nofun
  | cons l ls ih =>
    by_cases hl : 58 ∈ l
    · rcases ih with hall | ⟨headers, last, more, rfl, hcolon, hlast⟩
      · exact Or.inl (List.forall_mem_cons.mpr ⟨hl, hall⟩)
      · exact Or.inr ⟨l :: headers, last, more, rfl, List.forall_mem_cons.mpr ⟨hl, hcolon⟩, hlast⟩
    · exact Or.inr ⟨[], l, ls, rfl, nofun, hl⟩

/-- A head is put together again from its lines. -/
theorem head_of_lines {bs line : List Byte} {headers more : List (List Byte)}
    (hlines : lines bs = line :: headers ++ [] :: more) (hline : IsRequestLine line)
    (hcolon : ∀ h ∈ headers, 58 ∈ h) : ∃ head rest, IsHead head ∧ bs = head ++ rest := by
  have hall : ∀ l ∈ lines bs, NoCRLF l := fun l hl => noCRLF_iff.mpr (lines_line hl)
  have hjoin := join_lines bs
  rw [hlines] at hall hjoin
  refine ⟨line ++ [13, 10] ++ joinLines headers ++ [13, 10], joinLines more ++ unfinished bs,
    ⟨line, headers, hline, hall line List.mem_cons_self, ?_, rfl⟩, ?_⟩
  · intro h hh
    refine ⟨?_, hcolon h hh, hall h (List.mem_cons_of_mem _ (List.mem_append_left _ hh))⟩
    rintro rfl
    exact absurd (hcolon [] hh) List.not_mem_nil
  · refine hjoin.symm.trans ?_
    simp [joinLines]

/-- The bytes after which the parser has the whole head. -/
theorem gotAll_iff {bs : List Byte} :
    (digest receiveTime {} (lines bs)).1.gotAll = true ↔
      CutShort bs ∨ ∃ head rest, IsHead head ∧ bs = head ++ rest := by
  constructor
  · intro hgot
    cases hls : lines bs with
    | nil =>
      rw [hls] at hgot
      cases hgot
    | cons line ls =>
      obtain ⟨r, _, hdigest⟩ := digest_request_line receiveTime line ls
      rw [hls, hdigest] at hgot
      by_cases hline : isRequestLine line = true
      · rw [if_pos hline] at hgot
        rw [isRequestLine_iff] at hline
        rcases cut_without_colon ls with hall | ⟨headers, last, more, rfl, hcolon, hlast⟩
        · -- no line ends the headers
          have hst := (digest_open receiveTime
            (c := ⟨.expectHeaders, { r with receiveTime := receiveTime }⟩) rfl
            fun l hl => hasColon_iff.mpr (hall l hl)).1
          rw [gotAll, hst] at hgot
          cases hgot
        · by_cases hne : last = []
          · subst hne
            exact Or.inr (head_of_lines hls hline hcolon)
          · exact Or.inl ⟨line, headers, last, more, hls, hline, hcolon, hlast, hne⟩
      · rw [if_neg hline] at hgot
        cases hgot
  · rintro (⟨line, headers, last, more, hlines, hline, hcolon, hlast, _⟩ | ⟨head, rest, hhead, rfl⟩)
    · obtain ⟨c', hdigest, hgot⟩ := digest_whole receiveTime hline hcolon hlast more
      rw [hlines, hdigest]
      exact decide_eq_true hgot
    · obtain ⟨c', hdigest, hgot, _⟩ := digest_head receiveTime hhead rest
      rw [hdigest]
      exact decide_eq_true hgot

/-- **The parser and the grammar** agree on exactly the bytes in which no request
    line is followed by a non-empty first line without a colon. -/
theorem accepts_heads_iff (hb : b.Valid) :
    AcceptsHeads receiveTime b ↔ ¬ CutShort b.readable := by
  obtain ⟨b', hparse, _, _, hread⟩ := parse_digest receiveTime (c := {}) hb (Or.inl rfl)
  constructor
  · rintro ⟨c, b'', ok, hok, hgot, _⟩ hcut
    rw [hparse] at hok
    cases hok
    exact not_head_of_cutShort hcut (hgot.mp ((gotAll_iff receiveTime).mpr (Or.inl hcut)))
  · intro hcut
    refine ⟨_, b', _, hparse, ?_, ?_⟩
    · rw [gotAll_iff]
      exact or_iff_right hcut
    · intro head rest hhead heq
      obtain ⟨c', hdigest, _, hunf⟩ := digest_head receiveTime hhead rest
      rw [heq, hdigest, hunf] at hread
      rw [hread]
      exact join_lines rest

theorem accepts_heads_iff_sample :
    AcceptsHeads 0 (Buffer.holding (ascii "GET / HTTP/1.1\r\nHost: a\r\n\r\nrest")) ∧
      AcceptsHeads 0 (Buffer.holding (ascii "hello\r\n")) := by
  constructor
  · rw [accepts_heads_iff 0 (Buffer.holding_valid (by decide)), Buffer.holding_readable]
    rintro ⟨line, headers, last, more, hlines, _, hcolon, hlast, hne⟩
    have hval : lines (ascii "GET / HTTP/1.1\r\nHost: a\r\n\r\nrest") =
        ascii "GET / HTTP/1.1" :: ([ascii "Host: a"] ++ [[]]) := by decide
    rw [hval] at hlines
    exact hne (first_without_colon (List.cons.inj hlines).2 (by decide) hcolon (by decide) hlast).symm
  · rw [accepts_heads_iff 0 (Buffer.holding_valid (by decide)), Buffer.holding_readable]
    rintro ⟨line, headers, last, more, hlines, hline, _⟩
    have hval : lines (ascii "hello\r\n") = [ascii "hello"] := by decide
    rw [hval] at hlines
    rw [← (List.cons.inj hlines).1, ← isRequestLine_iff] at hline
    exact absurd hline (by decide)

/-- A second line without a colon is taken for the end of the head. -/
theorem accepts_cut_short :
    ¬ AcceptsHeads 0 (Buffer.holding (ascii "GET / HTTP/1.1\r\nhello\r\n")) := by
  rintro ⟨c, b', ok, hparse, hgot, _⟩
  have hcut : CutShort (ascii "GET / HTTP/1.1\r\nhello\r\n") := by
    refine ⟨ascii "GET / HTTP/1.1", [], ascii "hello", [], by decide, ?_, nofun, by decide,
      by decide⟩
    rw [← isRequestLine_iff]
    decide
  have hvalid : (Buffer.holding (ascii "GET / HTTP/1.1\r\nhello\r\n")).Valid :=
    Buffer.holding_valid (by decide)
  obtain ⟨b'', hparse', _⟩ := parse_digest 0 (c := {}) hvalid (Or.inl rfl)
  rw [hparse] at hparse'
  cases hparse'
  rw [Buffer.holding_readable] at hgot
  exact not_head_of_cutShort hcut (hgot.mp ((gotAll_iff 0).mpr (Or.inl hcut)))

-- ════════════════════════════════════════════════════════════════════════
-- Printed requests
-- ════════════════════════════════════════════════════════════════════════

/-- `name colon SP value`. -/
def headerLine (h : List Byte × List Byte) : List Byte := h.1 ++ 58 :: 32 :: h.2

/-- The text of a request, with its headers in the given order. -/
def printRequest (m : Method) (target : List Byte) (v : Version)
    (headers : List (List Byte × List Byte)) : List Byte :=
  requestLine m target v ++ [13, 10] ++ headers.flatMap (fun h => headerLine h ++ [13, 10]) ++
    [13, 10]

/-- The bytes neither begin nor end with white space. -/
def Trimmed (value : List Byte) : Prop :=
  (∀ x, value.head? = some x → isspace x = false) ∧
    ∀ x, value.getLast? = some x → isspace x = false

theorem dropWhile_of_head {value : List Byte}
    (h : ∀ x, value.head? = some x → isspace x = false) : value.dropWhile isspace = value := by
  cases value with
  | nil => rfl
  | cons x value =>
    rw [List.dropWhile_cons, if_neg]
    simp [h x rfl]

/-- `add_header` gets the value back from the blank and the value. -/
theorem addHeader_blank {value : List Byte} (h : Trimmed value) (r : HttpRequest)
    (name : List Byte) :
    r.addHeader name (32 :: value) = { r with headers := r.headers.set name value } := by
  have hfront : (32 :: value).dropWhile isspace = value := by
    rw [List.dropWhile_cons, if_pos (by decide)]
    exact dropWhile_of_head h.1
  have hback : value.reverse.dropWhile isspace = value.reverse := by
    apply dropWhile_of_head
    intro x hx
    rw [List.head?_reverse] at hx
    exact h.2 x hx
  rw [HttpRequest.addHeader, hfront, hback, List.reverse_reverse]

/-- A header line that was printed has no CRLF. -/
theorem headerLine_noCRLF {h : List Byte × List Byte} (hname : NoCRLF h.1) (hvalue : NoCRLF h.2) :
    NoCRLF (headerLine h) := by
  apply hname.join (by decide)
  exact .cons (by decide) (.cons (by decide) hvalue)

theorem requestLine_noCRLF (m : Method) {target : List Byte} (v : Version)
    (htarget : NoCRLF target) : NoCRLF (requestLine m target v) := by
  have hmethod : NoCRLF m.toBytes := by
    rw [noCRLF_iff]
    cases m <;> decide
  have hversion : NoCRLF (32 :: (ascii "HTTP/" ++ v.toBytes)) := by
    rw [noCRLF_iff]
    cases v <;> decide
  apply hmethod.join (by decide)
  exact .cons (by decide) (htarget.join (by decide) hversion)

/-- The headers of a printed request, one after the other. -/
theorem digest_printed (hc : c.state = .expectHeaders) {headers : List (List Byte × List Byte)}
    (hnames : ∀ h ∈ headers, 58 ∉ h.1) (hvalues : ∀ h ∈ headers, Trimmed h.2)
    (more : List (List Byte)) :
    digest receiveTime c (headers.map headerLine ++ [] :: more) =
      (⟨.gotAll, { c.request with
        headers := headers.foldl (fun m h => m.set h.1 h.2) c.request.headers }⟩, more, true) := by
  induction headers generalizing c with
  | nil =>
    rw [List.map_nil, List.nil_append, digest_header receiveTime hc]
    rfl
  | cons h headers ih =>
    have hfind : findByte 58 (headerLine h) = some (h.1, 32 :: h.2) :=
      findByte_eq_some.mpr ⟨rfl, hnames h List.mem_cons_self⟩
    rw [List.map_cons, List.cons_append, digest_header receiveTime hc, hfind]
    change digest receiveTime { c with request := c.request.addHeader h.1 (32 :: h.2) } _ = _
    rw [addHeader_blank (hvalues h List.mem_cons_self),
      ih (c := { c with request := { c.request with headers := c.request.headers.set h.1 h.2 } }) hc
        (fun g hg => hnames g (List.mem_cons_of_mem h hg))
        (fun g hg => hvalues g (List.mem_cons_of_mem h hg))]
    rfl

theorem lines_printRequest {m : Method} {target : List Byte} {v : Version}
    {headers : List (List Byte × List Byte)} (htarget : NoCRLF target)
    (hheaders : ∀ h ∈ headers, NoCRLF h.1 ∧ NoCRLF h.2) (rest : List Byte) :
    splitLines (printRequest m target v headers ++ rest) =
      (requestLine m target v :: (headers.map headerLine ++ [] :: lines rest), unfinished rest) := by
  have hall : ∀ l ∈ requestLine m target v :: headers.map headerLine ++ [[]], NoCRLF l := by
    intro l hl
    simp only [List.cons_append, List.mem_cons, List.mem_append, List.mem_map] at hl
    rcases hl with rfl | ⟨h, hh, rfl⟩ | rfl | hl
    · exact requestLine_noCRLF m v htarget
    · exact headerLine_noCRLF (hheaders h hh).1 (hheaders h hh).2
    · rw [noCRLF_iff]
      rfl
    · cases hl
  have hjoin : printRequest m target v headers ++ rest =
      joinLines (requestLine m target v :: headers.map headerLine ++ [[]]) ++ rest := by
    rw [joinLines_append]
    simp [printRequest, joinLines, List.flatMap_map]
  rw [hjoin, splitLines_joinLines hall]
  simp

theorem takeWhile_before {x : Byte} {before : List Byte} (h : x ∉ before) (after : List Byte) :
    (before ++ after).takeWhile (· ≠ x) = before ++ after.takeWhile (· ≠ x) := by
  apply List.takeWhile_append_of_pos
  intro y hy
  have hne : y ≠ x := fun heq => h (heq ▸ hy)
  exact decide_eq_true hne

theorem setTarget_eq {r : HttpRequest} (hquery : r.query = []) (target : List Byte) :
    (r.setTarget target).path ++ (r.setTarget target).query = target ∧
      (r.setTarget target).path = target.takeWhile (· ≠ 63) := by
  rw [HttpRequest.setTarget]
  cases hfind : findByte 63 target with
  | none =>
    have hcut := takeWhile_before (findByte_eq_none.mp hfind) []
    rw [List.append_nil] at hcut
    refine ⟨?_, ?_⟩
    · change target ++ r.query = target
      rw [hquery, List.append_nil]
    · rw [hcut]
      exact (List.append_nil target).symm
  | some p =>
    obtain ⟨rfl, hno⟩ := findByte_eq_some.mp hfind
    refine ⟨rfl, ?_⟩
    rw [takeWhile_before hno]
    exact (List.append_nil p.1).symm

/-- **Parsing undoes printing.** For every request and every order of its headers,
    with anything behind it: the parser has the whole request, with the method, the
    target, the version and the header map that were printed, and leaves the rest. -/
theorem parse_printRequest (hb : b.Valid) {m : Method} (hm : m ≠ .invalid) {target : List Byte}
    (hblank : 32 ∉ target) (htarget : NoCRLF target) {v : Version} (hv : v ≠ .unknown)
    {map : HeaderMap} {headers : List (List Byte × List Byte)} (hperm : headers.Perm map.entries)
    (hnames : ∀ h ∈ headers, 58 ∉ h.1 ∧ NoCRLF h.1)
    (hvalues : ∀ h ∈ headers, NoCRLF h.2 ∧ Trimmed h.2) {rest : List Byte}
    (hread : b.readable = printRequest m target v headers ++ rest) :
    ∃ c b', parse receiveTime {} b = .ok (c, b', true) ∧ c.gotAll = true ∧
      c.request.method = m ∧ c.request.version = v ∧
      c.request.path ++ c.request.query = target ∧
      c.request.path = target.takeWhile (· ≠ 63) ∧
      c.request.headers = map ∧ b'.readable = rest := by
  obtain ⟨b', hparse, _, _, hread'⟩ := parse_digest receiveTime (c := {}) hb (Or.inl rfl)
  have hsplit := lines_printRequest (m := m) (v := v) htarget
    (fun h hh => ⟨(hnames h hh).2, (hvalues h hh).1⟩) rest
  rw [← hread] at hsplit
  have hlines : lines b.readable =
      requestLine m target v :: (headers.map headerLine ++ [] :: lines rest) :=
    congrArg Prod.fst hsplit
  have hunf : unfinished b.readable = unfinished rest := by
    rw [unfinished, hsplit]
  obtain ⟨r, hr, hdigest⟩ := digest_request_line receiveTime (requestLine m target v)
    (headers.map headerLine ++ [] :: lines rest)
  have hline : isRequestLine (requestLine m target v) = true :=
    isRequestLine_iff.mpr ⟨m, target, v, hm, hv, hblank, rfl⟩
  rw [processRequestLine_requestLine hm hv hblank, hline] at hr
  cases hr
  rw [if_pos hline, digest_printed receiveTime rfl (fun h hh => (hnames h hh).1)
    (fun h hh => (hvalues h hh).2)] at hdigest
  rw [hlines, hdigest] at hparse hread'
  obtain ⟨hjoin, hpath⟩ := setTarget_eq (r := { method := m }) rfl target
  refine ⟨_, b', hparse, rfl, ?_, rfl, hjoin, hpath, ?_, ?_⟩
  · change (({ method := m } : HttpRequest).setTarget target).method = m
    rw [HttpRequest.setTarget]
    split <;> rfl
  · have hempty : (({ method := m } : HttpRequest).setTarget target).headers = .empty := by
      rw [HttpRequest.setTarget]
      split <;> rfl
    change headers.foldl _ (({ method := m } : HttpRequest).setTarget target).headers = map
    rw [hempty]
    exact OrderedMap.foldl_set_eq hperm
  · rw [hread', hunf]
    exact join_lines rest

theorem parse_printRequest_sample :
    ∃ c b', parse 0 {} (Buffer.holding (printRequest .put (ascii "/a?b?c") .http10
        [(ascii "Host", ascii "x:1"), (ascii "Accept", [])] ++ ascii "body")) = .ok (c, b', true) ∧
      c.request.path = ascii "/a" ∧ c.request.query = ascii "?b?c" ∧
      c.request.headers.entries = [(ascii "Accept", []), (ascii "Host", ascii "x:1")] ∧
      b'.readable = ascii "body" := by
  let map : HeaderMap := (OrderedMap.empty.set (ascii "Host") (ascii "x:1")).set (ascii "Accept") []
  let headers := [(ascii "Host", ascii "x:1"), (ascii "Accept", [])]
  have hnames : ∀ h ∈ headers, 58 ∉ h.1 ∧ NoCRLF h.1 := by decide
  have hvalues : ∀ h ∈ headers, NoCRLF h.2 ∧ Trimmed h.2 := by
    intro h hh
    refine ⟨?_, ?_⟩
    · revert h
      decide
    · rcases List.mem_cons.mp hh with rfl | hh
      · exact ⟨fun x hx => by cases hx; decide, fun x hx => by cases hx; decide⟩
      · rw [List.mem_singleton.mp hh]
        exact ⟨nofun, nofun⟩
  obtain ⟨c, b', hparse, _, _, _, hjoin, hpath, hmap, hrest⟩ := parse_printRequest 0
    (Buffer.holding_valid (by decide)) (m := .put) (by decide) (by decide) (by decide)
    (v := .http10) (by decide) (show headers.Perm map.entries by decide) hnames hvalues
    (Buffer.holding_readable (printRequest .put (ascii "/a?b?c") .http10 headers ++ ascii "body"))
  have hcut : (ascii "/a?b?c").takeWhile (· ≠ 63) = ascii "/a" := by decide
  rw [hcut] at hpath
  rw [hpath] at hjoin
  refine ⟨c, b', hparse, hpath, List.append_cancel_left (hjoin.trans ?_), ?_, hrest⟩
  · decide
  · rw [hmap]
    decide

end HttpContext

end DamnWebServer
