import DamnWebServer.Base.Decimal
import DamnWebServer.Http.Message
import DamnWebServer.Net.BufferQueue

/-!
# Reading responses back

A reader of HTTP responses, and what it makes of the bytes that
`append_to_buffer` leaves in a buffer. The head ends at the first empty line and
tells how far the body reaches, so a body may hold anything, another response
included.
-/

namespace DamnWebServer

-- ════════════════════════════════════════════════════════════════════════
-- The reader
-- ════════════════════════════════════════════════════════════════════════

/-- What a reader gets to know of a response. -/
structure ResponseReading where
  version : List Byte
  statusCode : Nat
  statusMessage : List Byte
  headers : HeaderMap
  closeConnection : Bool
  body : List Byte
  deriving DecidableEq

namespace ResponseReader

/-- The bytes up to the first CRLF, and those after it. -/
def readLine : List Byte → Option (List Byte × List Byte)
  | 13 :: 10 :: rest => some ([], rest)
  | b :: rest => (readLine rest).map fun r => (b :: r.1, r.2)
  | [] => none

/-- `HTTP/`, the version, the code and the message, set apart by blanks. The message
    is the rest of the line. -/
def readStatusLine (line : List Byte) : Option (List Byte × Nat × List Byte) := do
  guard (line.take 5 = ascii "HTTP/")
  let (version, rest) ← findByte 32 (line.drop 5)
  let (digits, message) ← findByte 32 rest
  let code ← readDecimal digits
  return (version, code, message)

/-- A name, a colon, a blank and the value. -/
def readHeader (line : List Byte) : Option (List Byte × List Byte) := do
  let (name, rest) ← findByte 58 line
  guard (rest.head? = some 32)
  return (name, rest.tail)

/-- The header lines up to the first empty line, within a number of lines. -/
def readHeaders : Nat → List Byte → Option (List (List Byte × List Byte) × List Byte)
  | 0, _ => none
  | n + 1, bs => do
    let (line, rest) ← readLine bs
    if line = [] then return ([], rest)
    let h ← readHeader line
    let (hs, rest) ← readHeaders n rest
    return (h :: hs, rest)

def lowercase (bs : List Byte) : List Byte := bs.map fun b => if 65 ≤ b ∧ b ≤ 90 then b + 32 else b

/-- Names are compared without regard to case. -/
def named (text : String) (name : List Byte) : Bool := lowercase name = lowercase (ascii text)

/-- The value of the first header of a name. -/
def valueOf (text : String) (hs : List (List Byte × List Byte)) : Option (List Byte) :=
  (hs.find? fun h => named text h.1).map Prod.snd

/-- The headers that say how the response is framed. -/
def framing (name : List Byte) : Bool := named "Content-Length" name || named "Connection" name

def saysClose (hs : List (List Byte × List Byte)) : Bool :=
  (valueOf "Connection" hs).map lowercase = some (ascii "close")

/-- One response, and the bytes after it. -/
def readResponse (bs : List Byte) : Option (ResponseReading × List Byte) := do
  let (line, rest) ← readLine bs
  let (version, code, message) ← readStatusLine line
  let (hs, rest) ← readHeaders bs.length rest
  let headers := (hs.filter fun h => !framing h.1).foldl (fun m h => m.set h.1 h.2) .empty
  if saysClose hs then return (⟨version, code, message, headers, true, rest⟩, [])
  let length ← (valueOf "Content-Length" hs).bind readDecimal
  guard (length ≤ rest.length)
  return (⟨version, code, message, headers, false, rest.take length⟩, rest.drop length)

/-- Responses to the end of the bytes, at most a number of them. -/
def readResponses : Nat → List Byte → Option (List ResponseReading)
  | _, [] => some []
  | 0, _ :: _ => none
  | n + 1, b :: bs => do
    let (r, rest) ← readResponse (b :: bs)
    let rs ← readResponses n rest
    return r :: rs

/-- Every response takes some bytes. -/
def readAll (bs : List Byte) : Option (List ResponseReading) := readResponses bs.length bs

theorem readLine_line {line : List Byte} (h : 13 ∉ line) (rest : List Byte) :
    readLine (line ++ ascii "\r\n" ++ rest) = some (line, rest) := by
  induction line with
  | nil => rfl
  | cons b line ih =>
    rw [List.mem_cons, not_or] at h
    have hread : readLine (b :: (line ++ ascii "\r\n" ++ rest)) =
        (readLine (line ++ ascii "\r\n" ++ rest)).map fun r => (b :: r.1, r.2) := by
      rw [readLine]
      rintro rest' rfl
      exact absurd rfl h.1
    rw [List.cons_append, List.cons_append, hread, ih h.2]
    rfl

/-- The text of a header line. -/
def headerText (h : List Byte × List Byte) : List Byte := h.1 ++ ascii ": " ++ h.2

theorem readHeader_text {h : List Byte × List Byte} (hname : 58 ∉ h.1) :
    readHeader (headerText h) = some h := by
  have hfind : findByte 58 (headerText h) = some (h.1, 32 :: h.2) := by
    rw [findByte_eq_some]
    refine ⟨?_, hname⟩
    rw [headerText, List.append_assoc]
    rfl
  rw [readHeader, hfind]
  rfl

theorem readHeaders_text {hs : List (List Byte × List Byte)} {n : Nat} (hn : hs.length < n)
    (hhs : ∀ h ∈ hs, 13 ∉ h.1 ∧ 58 ∉ h.1 ∧ 13 ∉ h.2) (rest : List Byte) :
    readHeaders n (hs.flatMap (fun h => headerText h ++ ascii "\r\n") ++ ascii "\r\n" ++ rest) =
      some (hs, rest) := by
  induction hs generalizing n with
  | nil =>
    cases n with
    | zero => cases hn
    | succ n => rfl
  | cons h hs ih =>
    cases n with
    | zero => cases hn
    | succ n =>
      obtain ⟨hname, hcolon, hvalue⟩ := hhs h List.mem_cons_self
      have hline : 13 ∉ headerText h := by
        rw [headerText, List.mem_append, List.mem_append, not_or, not_or]
        exact ⟨⟨hname, by decide⟩, hvalue⟩
      have hne : headerText h ≠ [] := by
        rw [headerText]
        simp [ascii]
      have hrest := ih (Nat.lt_of_succ_lt_succ hn) fun h' hh' => hhs h' (List.mem_cons_of_mem h hh')
      rw [List.flatMap_cons, readHeaders, List.append_assoc, List.append_assoc,
        readLine_line hline, ← List.append_assoc]
      simp only [bind, Option.bind, if_neg hne, readHeader_text hcolon, hrest]
      rfl

theorem length_lt_headers (hs : List (List Byte × List Byte)) (before rest : List Byte) :
    hs.length < (before ++
      (hs.flatMap (fun h => headerText h ++ ascii "\r\n") ++ ascii "\r\n" ++ rest)).length := by
  have hend : (ascii "\r\n").length = 2 := by decide
  have hlines : hs.length ≤ (hs.flatMap fun h => headerText h ++ ascii "\r\n").length := by
    induction hs with
    | nil => exact Nat.le_refl 0
    | cons h hs ih =>
      rw [List.length_cons, List.flatMap_cons, List.length_append, List.length_append]
      omega
  rw [List.length_append, List.length_append, List.length_append]
  omega

end ResponseReader

-- ════════════════════════════════════════════════════════════════════════
-- The text of a response
-- ════════════════════════════════════════════════════════════════════════

namespace HttpResponse

open ResponseReader

/-- What there is to read in a response. -/
def reading (r : HttpResponse) : ResponseReading where
  version := r.version.toBytes
  statusCode := r.statusCode.toNat
  statusMessage := r.statusMessage
  headers := r.headers
  closeConnection := r.closeConnection
  body := r.body

/-- A response that keeps to its layout: no line breaks in the texts of the head,
    header names without a colon that leave the framing to `append_to_buffer`, and a
    length of thirteen digits at most. -/
structure Plain (r : HttpResponse) : Prop where
  message : 13 ∉ r.statusMessage ∧ 10 ∉ r.statusMessage
  header : ∀ h ∈ r.headers.entries,
    (13 ∉ h.1 ∧ 10 ∉ h.1) ∧ (13 ∉ h.2 ∧ 10 ∉ h.2) ∧ 58 ∉ h.1 ∧ framing h.1 = false
  body : r.body.length < 10 ^ 13

def statusLine (r : HttpResponse) : List Byte :=
  ascii "HTTP/" ++ r.version.toBytes ++ ascii " " ++ ascii (toString r.statusCode.toNat) ++
    ascii " " ++ r.statusMessage

/-- The header lines, those for the framing first. -/
def headerLines (r : HttpResponse) : List (List Byte × List Byte) :=
  (if r.closeConnection then [(ascii "Connection", ascii "close")]
  else [(ascii "Content-Length", ascii (toString r.body.length)),
    (ascii "Connection", ascii "Keep-Alive")]) ++ r.headers.entries

variable {r : HttpResponse}

theorem snprintf32_length_le (text : List Byte) : (snprintf32 text).length ≤ 31 :=
  List.length_take_le 31 text

/-- Both texts that go through `char buf[32]` fit. -/
theorem snprintf32_eq {text : List Byte} (h : text.length ≤ 31) : snprintf32 text = text :=
  List.take_of_length_le h

theorem statusLine_fits (v : Version) (c : HttpStatusCode) :
    (ascii "HTTP/" ++ v.toBytes ++ ascii " " ++ ascii (toString c.toNat) ++ ascii " ").length ≤ 31 := by
  cases v <;> cases c <;> decide

theorem contentLength_fits (h : r.body.length < 10 ^ 13) :
    (ascii "Content-Length: " ++ ascii (toString r.body.length) ++ ascii "\r\n").length ≤ 31 := by
  have hdigits := length_toString_le (by decide) h
  have hname : (ascii "Content-Length: ").length = 16 := by decide
  have hend : (ascii "\r\n").length = 2 := by decide
  rw [List.length_append, List.length_append]
  omega

/-- The layout: a status line, header lines, an empty line and the body. -/
theorem text_eq (h : r.body.length < 10 ^ 13) :
    r.pieces.flatten = r.statusLine ++ ascii "\r\n" ++
      (r.headerLines.flatMap (fun h => headerText h ++ ascii "\r\n") ++ ascii "\r\n" ++ r.body) := by
  have hsplit : ascii "Content-Length: " = ascii "Content-Length" ++ ascii ": " := by decide
  have halive : ascii "Connection: Keep-Alive\r\n" =
      ascii "Connection" ++ ascii ": " ++ ascii "Keep-Alive" ++ ascii "\r\n" := by decide
  have hclose : ascii "Connection: close\r\n" =
      ascii "Connection" ++ ascii ": " ++ ascii "close" ++ ascii "\r\n" := by decide
  have hentries : ∀ hs : List (List Byte × List Byte),
      (hs.flatMap fun h => [h.1, ascii ": ", h.2, ascii "\r\n"]).flatten =
        hs.flatMap fun h => headerText h ++ ascii "\r\n" := by
    intro hs
    induction hs with
    | nil => rfl
    | cons h hs ih =>
      rw [List.flatMap_cons, List.flatten_append, ih, List.flatMap_cons]
      simp only [headerText, List.flatten_cons, List.flatten_nil, List.append_nil, List.append_assoc]
  rw [pieces, snprintf32_eq (statusLine_fits _ _), snprintf32_eq (contentLength_fits h)]
  simp only [List.flatten_append, hentries]
  rw [headerLines, statusLine]
  cases r.closeConnection <;>
    simp only [Bool.false_eq_true, if_true, if_false, List.flatten_cons, List.flatten_nil,
      List.flatMap_cons, List.cons_append, List.nil_append, headerText, hsplit, halive, hclose,
      List.append_assoc, List.append_nil]

theorem readStatusLine_text (r : HttpResponse) :
    readStatusLine r.statusLine = some (r.version.toBytes, r.statusCode.toNat, r.statusMessage) := by
  have hversion : findByte 32 (r.statusLine.drop 5) = some (r.version.toBytes,
      ascii (toString r.statusCode.toNat) ++ ascii " " ++ r.statusMessage) := by
    rw [findByte_eq_some]
    refine ⟨?_, by cases r.version <;> decide⟩
    simp only [statusLine, List.append_assoc]
    rfl
  have hcode : findByte 32 (ascii (toString r.statusCode.toNat) ++ ascii " " ++ r.statusMessage) =
      some (ascii (toString r.statusCode.toNat), r.statusMessage) := by
    rw [findByte_eq_some]
    refine ⟨?_, by cases r.statusCode <;> decide⟩
    rw [List.append_assoc]
    rfl
  have hhead : r.statusLine.take 5 = ascii "HTTP/" := by
    simp only [statusLine, List.append_assoc]
    rfl
  simp only [readStatusLine, hhead, hversion, hcode, readDecimal_toString, bind, Option.bind]
  rfl

/-- The framing headers are not among the others. -/
theorem headers_of_headerLines (h : r.Plain) :
    (r.headerLines.filter fun h => !framing h.1).foldl (fun m h => m.set h.1 h.2) .empty =
      r.headers := by
  have hfilter : r.headerLines.filter (fun h => !framing h.1) = r.headers.entries := by
    have hkeep : r.headers.entries.filter (fun h => !framing h.1) = r.headers.entries := by
      rw [List.filter_eq_self]
      intro e he
      rw [(h.header e he).2.2.2]
      rfl
    have hlength : framing (ascii "Content-Length") = true := by decide
    have hconnection : framing (ascii "Connection") = true := by decide
    rw [headerLines, List.filter_append, hkeep]
    cases r.closeConnection <;> simp [hlength, hconnection]
  rw [hfilter]
  exact OrderedMap.foldl_set_eq (List.Perm.refl _)

theorem saysClose_headerLines (r : HttpResponse) :
    saysClose r.headerLines = r.closeConnection := by
  have hname : named "Connection" (ascii "Connection") = true := by decide
  have hother : named "Connection" (ascii "Content-Length") = false := by decide
  rw [saysClose, valueOf, headerLines]
  cases r.closeConnection with
  | true =>
    simp only [if_true, List.cons_append, List.find?_cons, hname]
    decide
  | false =>
    simp only [Bool.false_eq_true, if_false, List.cons_append, List.find?_cons, hname, hother]
    decide

theorem contentLength_headerLines (h : r.closeConnection = false) :
    (valueOf "Content-Length" r.headerLines).bind readDecimal = some r.body.length := by
  have hname : named "Content-Length" (ascii "Content-Length") = true := by decide
  rw [valueOf, headerLines, h]
  simp only [Bool.false_eq_true, if_false, List.cons_append, List.find?_cons, hname]
  exact readDecimal_toString _

/-- No line of the head holds a CR of its own. -/
theorem head_lines (h : r.Plain) :
    13 ∉ r.statusLine ∧ ∀ l ∈ r.headerLines, 13 ∉ l.1 ∧ 58 ∉ l.1 ∧ 13 ∉ l.2 := by
  have hdigits : 13 ∉ ascii (toString r.body.length) := by
    intro hmem
    exact absurd (List.all_eq_true.mp (isDigit_toString _) 13 hmem) (by decide)
  constructor
  · have hversion : 13 ∉ ascii "HTTP/" ++ r.version.toBytes ++ ascii " " := by
      cases r.version <;> decide
    have hcode : 13 ∉ ascii (toString r.statusCode.toNat) ++ ascii " " := by
      cases r.statusCode <;> decide
    rw [statusLine, List.append_assoc _ _ (ascii " "), List.mem_append, List.mem_append, not_or,
      not_or]
    exact ⟨⟨hversion, hcode⟩, h.message.1⟩
  · intro l hl
    rw [headerLines, List.mem_append] at hl
    rcases hl with hl | hl
    · cases hclose : r.closeConnection with
      | true =>
        rw [hclose, if_pos rfl, List.mem_singleton] at hl
        rw [hl]
        decide
      | false =>
        rw [hclose, if_neg (by decide), List.mem_cons, List.mem_singleton] at hl
        rcases hl with rfl | rfl
        · have hname : 13 ∉ ascii "Content-Length" ∧ 58 ∉ ascii "Content-Length" := by decide
          exact ⟨hname.1, hname.2, hdigits⟩
        · decide
    · obtain ⟨hname, hvalue, hcolon, _⟩ := h.header l hl
      exact ⟨hname.1, hcolon, hvalue.1⟩

/-- **One response.** The reader takes it from the front of the bytes, or to their
    end when it closes the connection. -/
theorem readResponse_text (h : r.Plain) {rest : List Byte}
    (hlast : r.closeConnection = true → rest = []) :
    readResponse (r.pieces.flatten ++ rest) = some (r.reading, rest) := by
  obtain ⟨hstatus, hlines⟩ := head_lines h
  have hread := readHeaders_text (length_lt_headers r.headerLines (r.statusLine ++ ascii "\r\n")
    (r.body ++ rest)) hlines (r.body ++ rest)
  rw [text_eq h.body, List.append_assoc _ _ rest, List.append_assoc _ _ rest]
  simp only [readResponse, readLine_line hstatus, readStatusLine_text, hread,
    Option.bind_eq_bind, Option.bind_some, headers_of_headerLines h, saysClose_headerLines]
  cases hclose : r.closeConnection with
  | true =>
    rw [hlast hclose, if_pos rfl, List.append_nil, reading, hclose]
    rfl
  | false =>
    have hfits : r.body.length ≤ (r.body ++ rest).length := by
      rw [List.length_append]
      omega
    rw [if_neg (by decide), contentLength_headerLines hclose]
    simp only [Option.bind_some, hfits, guard_true, List.take_left, List.drop_left, reading, hclose]
    rfl

-- ════════════════════════════════════════════════════════════════════════
-- A sequence of responses
-- ════════════════════════════════════════════════════════════════════════

/-- `append_to_buffer` of one response after the other. -/
def appendAll (rs : List HttpResponse) (output : Buffer) : Except Fault Buffer :=
  rs.foldlM (fun b r => r.appendToBuffer b) output

/-- All that is appended for a sequence. -/
def allPieces (rs : List HttpResponse) : List (List Byte) := rs.flatMap pieces

theorem appendAll_eq (rs : List HttpResponse) (b : Buffer) :
    appendAll rs b = (allPieces rs).foldlM Buffer.append b := by
  induction rs generalizing b with
  | nil => rfl
  | cons r rs ih =>
    rw [allPieces, List.flatMap_cons, List.foldlM_append, appendAll, List.foldlM_cons]
    apply bind_congr
    intro b'
    exact ih b'

theorem allPieces_cons (r : HttpResponse) (rs : List HttpResponse) :
    (allPieces (r :: rs)).flatten = r.pieces.flatten ++ (allPieces rs).flatten := by
  rw [allPieces, List.flatMap_cons, List.flatten_append]
  rfl

theorem text_pos (h : r.Plain) : 0 < r.pieces.flatten.length := by
  rw [text_eq h.body]
  exact Nat.zero_lt_of_lt (length_lt_headers _ _ _)

theorem length_allPieces {rs : List HttpResponse} (hplain : ∀ r ∈ rs, r.Plain) :
    rs.length ≤ (allPieces rs).flatten.length := by
  induction rs with
  | nil => exact Nat.le_refl 0
  | cons r rs ih =>
    have hpos := text_pos (hplain r List.mem_cons_self)
    have hrest := ih fun r' hr' => hplain r' (List.mem_cons_of_mem r hr')
    rw [allPieces_cons, List.length_cons, List.length_append]
    omega

/-- **The sequence** is read back from its bytes, by induction on it: only the last
    response may reach to the end. -/
theorem readResponses_text {rs : List HttpResponse} (hplain : ∀ r ∈ rs, r.Plain)
    (hclose : ∀ r ∈ rs.dropLast, r.closeConnection = false) {n : Nat} (hn : rs.length ≤ n) :
    readResponses n (allPieces rs).flatten = some (rs.map reading) := by
  induction rs generalizing n with
  | nil => cases n <;> rfl
  | cons r rs ih =>
    cases n with
    | zero => cases hn
    | succ n =>
      have hr := hplain r List.mem_cons_self
      have hlast : r.closeConnection = true → (allPieces rs).flatten = [] := by
        intro hc
        cases rs with
        | nil => rfl
        | cons r' rs =>
          have hno := hclose r (by rw [List.dropLast_cons_cons]; exact List.mem_cons_self)
          rw [hc] at hno
          cases hno
      have hrest : ∀ r' ∈ rs.dropLast, r'.closeConnection = false := by
        intro r' hr'
        apply hclose
        cases rs with
        | nil => cases hr'
        | cons r'' rs =>
          rw [List.dropLast_cons_cons]
          exact List.mem_cons_of_mem r hr'
      have hread := readResponse_text hr hlast
      have hpos := text_pos hr
      have htail := ih (fun r' hr' => hplain r' (List.mem_cons_of_mem r hr')) hrest
        (Nat.le_of_succ_le_succ hn)
      rw [allPieces_cons]
      cases htext : r.pieces.flatten ++ (allPieces rs).flatten with
      | nil =>
        rw [(List.append_eq_nil_iff.mp htext).1] at hpos
        cases hpos
      | cons b bs =>
        rw [htext] at hread
        simp only [readResponses, hread, htail, Option.bind_eq_bind, Option.bind_some]
        rfl

/-- Whatever a buffer holds, as far as its vector can hold the responses too: they
    come after the old content, and the reader recovers the sequence. -/
def ReadBack (rs : List HttpResponse) : Prop :=
  ∀ b : Buffer, b.Valid → b.writerIndex + (allPieces rs).flatten.length ≤ maxSize →
    ∃ b' added, appendAll rs b = .ok b' ∧ b'.readable = b.readable ++ added ∧
      readAll added = some (rs.map reading)

/-- Every text of the response has a length that an `int` can hold. -/
structure Short (r : HttpResponse) : Prop where
  message : r.statusMessage.length < 2 ^ 31
  header : ∀ h ∈ r.headers.entries, h.1.length < 2 ^ 31 ∧ h.2.length < 2 ^ 31
  body : r.body.length < 2 ^ 31

/-- The other pieces are short by themselves. -/
theorem short_iff : r.Short ↔ ∀ piece ∈ r.pieces, piece.length < 2 ^ 31 := by
  have hprintf : ∀ text, (snprintf32 text).length < 2 ^ 31 := fun text =>
    Nat.lt_of_le_of_lt (snprintf32_length_le text) (by decide)
  have hfixed : (ascii "\r\n").length < 2 ^ 31 ∧ (ascii ": ").length < 2 ^ 31 ∧
      (ascii "Connection: close\r\n").length < 2 ^ 31 ∧
      (ascii "Connection: Keep-Alive\r\n").length < 2 ^ 31 := by decide
  rw [pieces]
  constructor
  · intro h
    have hheaders : ∀ piece ∈ r.headers.entries.flatMap
        (fun h => [h.1, ascii ": ", h.2, ascii "\r\n"]), piece.length < 2 ^ 31 := by
      intro piece hmem
      obtain ⟨e, he, hpiece⟩ := List.mem_flatMap.mp hmem
      obtain ⟨hname, hvalue⟩ := h.header e he
      simp only [List.mem_cons, List.not_mem_nil, or_false] at hpiece
      rcases hpiece with rfl | rfl | rfl | rfl
      · exact hname
      · exact hfixed.2.1
      · exact hvalue
      · exact hfixed.1
    simp only [List.forall_mem_append]
    refine ⟨⟨⟨?_, ?_⟩, hheaders⟩, ?_⟩
    · simp only [List.forall_mem_cons]
      exact ⟨hprintf _, h.message, hfixed.1, fun _ hnil => by cases hnil⟩
    · split
      · simp only [List.forall_mem_cons]
        exact ⟨hfixed.2.2.1, fun _ hnil => by cases hnil⟩
      · simp only [List.forall_mem_cons]
        exact ⟨hprintf _, hfixed.2.2.2, fun _ hnil => by cases hnil⟩
    · simp only [List.forall_mem_cons]
      exact ⟨hfixed.1, h.body, fun _ hnil => by cases hnil⟩
  · intro h
    simp only [List.forall_mem_append] at h
    obtain ⟨⟨⟨hstatus, _⟩, hheaders⟩, hend⟩ := h
    refine ⟨hstatus _ (by simp), ?_, hend _ (by simp)⟩
    intro e he
    exact ⟨hheaders _ (List.mem_flatMap.mpr ⟨e, he, by simp⟩),
      hheaders _ (List.mem_flatMap.mpr ⟨e, he, by simp⟩)⟩

/-- A text that is too long does not get into a fresh buffer. -/
theorem not_readBack {rs : List HttpResponse} {piece : List Byte} (hmem : piece ∈ allPieces rs)
    (hlen : 2 ^ 31 ≤ piece.length)
    (hfit : Buffer.kCheapPrepend + (allPieces rs).flatten.length ≤ maxSize) : ¬ ReadBack rs := by
  intro hread
  obtain ⟨f, hf⟩ := Buffer.foldlM_append_overlong Buffer.fresh_tight ⟨piece, hmem, hlen⟩
  obtain ⟨b', added, hok, _⟩ := hread _ Buffer.fresh_valid hfit
  rw [appendAll_eq, hf] at hok
  cases hok

/-- **Responses can be read back** if and only if no text in them is longer than the
    `int` of `make_space` can tell. -/
theorem read_back_iff {rs : List HttpResponse} (hplain : ∀ r ∈ rs, r.Plain)
    (hclose : ∀ r ∈ rs.dropLast, r.closeConnection = false)
    (hfit : Buffer.kCheapPrepend + (allPieces rs).flatten.length ≤ maxSize) :
    ReadBack rs ↔ ∀ r ∈ rs, r.Short := by
  have hpieces : (∀ r ∈ rs, r.Short) ↔ ∀ piece ∈ allPieces rs, piece.length < 2 ^ 31 := by
    simp only [allPieces, List.mem_flatMap, short_iff]
    constructor
    · rintro h piece ⟨r, hr, hmem⟩
      exact h r hr piece hmem
    · intro h r hr piece hmem
      exact h piece ⟨r, hr, hmem⟩
  rw [hpieces]
  constructor
  · intro hread
    by_contra hlong
    simp only [not_forall, Nat.not_lt] at hlong
    obtain ⟨piece, hmem, hlen⟩ := hlong
    exact not_readBack hmem hlen hfit hread
  · intro hshort b hb hroom
    obtain ⟨b', hok, hreadable⟩ := Buffer.foldlM_append_ok hb hshort hroom
    refine ⟨b', (allPieces rs).flatten, ?_, hreadable, ?_⟩
    · rw [appendAll_eq]
      exact hok
    · exact readResponses_text hplain hclose (length_allPieces hplain)

/-- A response whose body reads like a response, and one that closes the connection. -/
def sampleResponses : List HttpResponse :=
  [{ closeConnection := false, statusCode := .ok, statusMessage := ascii "OK", version := .http10,
      headers := OrderedMap.empty.set (ascii "Content-Type") (ascii "text/html"),
      body := ascii "HTTP/1.1 404 Not Found\r\nConnection: close\r\n\r\n" },
    { closeConnection := true, statusCode := .notFound, statusMessage := ascii "Not Found",
      body := ascii "\r\n\r\n" }]

theorem read_back_iff_sample :
    (∀ r ∈ sampleResponses, r.Plain ∧ r.Short) ∧ ReadBack sampleResponses := by
  have hplain : ∀ r ∈ sampleResponses, r.Plain := by
    simp only [sampleResponses, List.forall_mem_cons]
    refine ⟨⟨?_, ?_, ?_⟩, ⟨?_, ?_, ?_⟩, fun _ hnil => by cases hnil⟩ <;> decide
  have hshort : ∀ r ∈ sampleResponses, r.Short := by
    simp only [short_iff]
    decide
  refine ⟨fun r hr => ⟨hplain r hr, hshort r hr⟩, ?_⟩
  exact (read_back_iff hplain (by decide) (by decide +kernel)).mpr hshort

/-- A keep-alive response with nothing but a body. -/
def bodyOnly (body : List Byte) : HttpResponse := { closeConnection := false, body := body }

theorem bodyOnly_overlong {body : List Byte} (h : body.length = 2 ^ 31) :
    (bodyOnly body).Plain ∧ Buffer.kCheapPrepend + (allPieces [bodyOnly body]).flatten.length ≤ maxSize ∧
      ¬ ReadBack [bodyOnly body] := by
  have hplain : (bodyOnly body).Plain := by
    have hbody : body.length < 10 ^ 13 := by omega
    exact ⟨⟨List.not_mem_nil, List.not_mem_nil⟩, fun e he => absurd he List.not_mem_nil, hbody⟩
  have hfit : Buffer.kCheapPrepend + (allPieces [bodyOnly body]).flatten.length ≤ maxSize := by
    have hstatus := snprintf32_length_le (ascii "HTTP/" ++ (bodyOnly body).version.toBytes ++
      ascii " " ++ ascii (toString (bodyOnly body).statusCode.toNat) ++ ascii " ")
    have hlength := snprintf32_length_le
      (ascii "Content-Length: " ++ ascii (toString (bodyOnly body).body.length) ++ ascii "\r\n")
    have hfixed : (ascii "\r\n").length = 2 ∧ (ascii "Connection: Keep-Alive\r\n").length = 24 := by
      decide
    rw [allPieces, List.flatMap_singleton]
    change 8 + (_ ++ ([] ++ (_ ++ (_ ++ (_ ++ (_ ++ (body ++ []))))))).length ≤ maxSize
    simp only [List.length_append, List.length_nil, hfixed.1, hfixed.2, h]
    unfold maxSize
    omega
  refine ⟨hplain, hfit, not_readBack ?_ (Nat.le_of_eq h.symm) hfit⟩
  simp [allPieces, pieces, bodyOnly]

theorem overlong_not_read_back :
    (bodyOnly (List.replicate (2 ^ 31) 0)).Plain ∧
      Buffer.kCheapPrepend + (allPieces [bodyOnly (List.replicate (2 ^ 31) 0)]).flatten.length ≤ maxSize ∧
      ¬ ReadBack [bodyOnly (List.replicate (2 ^ 31) 0)] :=
  bodyOnly_overlong List.length_replicate

end HttpResponse

end DamnWebServer
