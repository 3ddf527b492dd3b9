import DamnWebServer.Http.RequestHead
import DamnWebServer.Http.ResponseText
import DamnWebServer.Http.Segmentation
import DamnWebServer.Lib.Journal

/-!
# Requests and responses of one connection

What a client gets for whole requests. `on_message` runs once for a read and takes one
request off the input buffer, so that a read with several requests leaves all but the
first waiting for the reads after it: the buffer is a queue of requests, of which each
read serves the first.
-/

namespace DamnWebServer

/-- A request as a client means it. -/
structure ClientRequest where
  method : Method
  target : List Byte
  version : Version
  headers : List (List Byte × List Byte)
  method_ne : method ≠ .invalid
  version_ne : version ≠ .unknown
  blank : 32 ∉ target
  line : NoCRLF target
  names : ∀ h ∈ headers, 58 ∉ h.1 ∧ NoCRLF h.1
  values : ∀ h ∈ headers, NoCRLF h.2 ∧ HttpContext.Trimmed h.2

namespace ClientRequest

def print (q : ClientRequest) : List Byte :=
  HttpContext.printRequest q.method q.target q.version q.headers

/-- The request the server should see. -/
def parsed (q : ClientRequest) (receiveTime : Int) : HttpRequest :=
  { ({ method := q.method } : HttpRequest).setTarget q.target with
    version := q.version
    receiveTime := receiveTime
    headers := q.headers.foldl (fun m h => m.set h.1 h.2) .empty }

/-- The bytes of some requests. -/
def printAll (qs : List ClientRequest) : List Byte := qs.flatMap print

theorem printAll_cons (q : ClientRequest) (qs : List ClientRequest) :
    printAll (q :: qs) = q.print ++ printAll qs := List.flatMap_cons

theorem printAll_append (qs rs : List ClientRequest) :
    printAll (qs ++ rs) = printAll qs ++ printAll rs := List.flatMap_append

end ClientRequest

namespace HttpServer

variable (callback : HttpCallback) {b : Buffer}

/-- **One call of `on_message`** with a request in front handles it and leaves the
    rest. -/
theorem onMessage_print (q : ClientRequest) (receiveTime : Int) {rest : List Byte} (hb : b.Valid)
    (hread : b.readable = q.print ++ rest) :
    ∃ b', onMessage callback b receiveTime = (b', onRequest callback (q.parsed receiveTime)) ∧
      b'.Valid ∧ b'.readable = rest := by
  obtain ⟨b', hparse, hvalid, _, hread'⟩ :=
    HttpContext.parse_digest receiveTime (c := {}) hb (Or.inl rfl)
  have hsplit := HttpContext.lines_printRequest (m := q.method) (v := q.version) q.line
    (fun h hh => ⟨(q.names h hh).2, (q.values h hh).1⟩) rest
  rw [← ClientRequest.print, ← hread] at hsplit
  have hlines : lines b.readable = requestLine q.method q.target q.version ::
      (q.headers.map HttpContext.headerLine ++ [] :: lines rest) := congrArg Prod.fst hsplit
  have hunf : unfinished b.readable = unfinished rest := by
    rw [unfinished, hsplit]
  obtain ⟨r, hr, hdigest⟩ := HttpContext.digest_request_line receiveTime
    (requestLine q.method q.target q.version) (q.headers.map HttpContext.headerLine ++ [] :: lines rest)
  have hline : isRequestLine (requestLine q.method q.target q.version) = true :=
    isRequestLine_iff.mpr ⟨q.method, q.target, q.version, q.method_ne, q.version_ne, q.blank, rfl⟩
  rw [processRequestLine_requestLine q.method_ne q.version_ne q.blank, hline] at hr
  cases hr
  have hempty : (({ method := q.method } : HttpRequest).setTarget q.target).headers = .empty := by
    rw [HttpRequest.setTarget]
    split <;> rfl
  have hwhole : HttpContext.digest receiveTime {} (lines b.readable) =
      (⟨.gotAll, q.parsed receiveTime⟩, lines rest, true) := by
    rw [hlines, hdigest, if_pos hline, HttpContext.digest_printed receiveTime rfl
      (fun h hh => (q.names h hh).1) (fun h hh => (q.values h hh).2)]
    simp only [hempty, ClientRequest.parsed]
  rw [hwhole] at hparse hread'
  refine ⟨b', ?_, hvalid, ?_⟩
  · rw [HttpContext.parse] at hparse
    simp only [onMessage, hparse, HttpContext.gotAll, decide_true, if_true, List.nil_append]
  · rw [hread', hunf]
    exact join_lines rest

/-- The `close` of `on_request`. -/
def wantsClose (req : HttpRequest) : Bool :=
  req.getHeader (ascii "Connection") = ascii "close" ∨
    req.version = .http10 ∧ req.getHeader (ascii "Connection") ≠ ascii "Keep-Alive"

/-- The response to a request, as `http_callback_` leaves it. -/
def answer (req : HttpRequest) : HttpResponse := callback req (.new (wantsClose req))

/-- Whatever the request, the callback keeps to the layout of a response, with texts that
    an `int` can measure and a vector can hold. -/
def Proper : Prop :=
  ∀ req close, (callback req (.new close)).Plain ∧ (callback req (.new close)).Short ∧
    Buffer.kCheapPrepend + (callback req (.new close)).pieces.flatten.length ≤ maxSize

variable {callback}

/-- `on_request` sends the response, and shuts down if the response says so. -/
theorem onRequest_answer (h : Proper callback) (req : HttpRequest) :
    onRequest callback req = .request req :: .send (answer callback req).pieces.flatten ::
      if (answer callback req).closeConnection then [.shutdown] else [] := by
  have hanswer : answer callback req = callback req (.new (wantsClose req)) := rfl
  obtain ⟨_, hshort, hfit⟩ := h req (wantsClose req)
  rw [← hanswer] at hshort hfit
  obtain ⟨b, hok, hread⟩ := Buffer.foldlM_append_ok Buffer.fresh_valid
    (HttpResponse.short_iff.mp hshort) hfit
  rw [Buffer.fresh_readable, List.nil_append] at hread
  unfold onRequest
  extract_lets _ _ response
  have hresponse : response = answer callback req := rfl
  rw [hresponse, HttpResponse.appendToBuffer, hok, ← hread]
  rfl

end HttpServer

namespace HttpResponse

/-- The responses up to the first that closes the connection. -/
def untilClose : List HttpResponse → List HttpResponse
  | [] => []
  | r :: rs => if r.closeConnection then [r] else r :: untilClose rs

theorem mem_of_mem_untilClose {r : HttpResponse} {rs : List HttpResponse} (h : r ∈ untilClose rs) :
    r ∈ rs := by
  induction rs with
  | nil => exact h
  | cons s rs ih =>
    rw [untilClose] at h
    split at h
    · rw [List.mem_singleton.mp h]
      exact List.mem_cons_self
    · rcases List.mem_cons.mp h with rfl | h
      · exact List.mem_cons_self
      · exact List.mem_cons_of_mem s (ih h)

/-- Only the last of them closes it. -/
theorem dropLast_untilClose (rs : List HttpResponse) :
    ∀ r ∈ (untilClose rs).dropLast, r.closeConnection = false := by
  induction rs with
  | nil => exact fun r hr => absurd hr List.not_mem_nil
  | cons s rs ih =>
    rw [untilClose]
    split
    · exact fun r hr => absurd hr List.not_mem_nil
    · next hs =>
      cases hrest : untilClose rs with
      | nil => exact fun r hr => absurd hr List.not_mem_nil
      | cons t ts =>
        rw [List.dropLast_cons_cons]
        intro r hr
        rcases List.mem_cons.mp hr with rfl | hr
        · exact Bool.eq_false_iff.mpr hs
        · rw [hrest] at ih
          exact ih r hr

end HttpResponse

namespace HttpSession

open ClientRequest HttpServer HttpResponse

variable {callback : HttpCallback}

/-- Each read brings one whole request, or several. -/
def Brings (tr : List HttpRead) (batches : List (List ClientRequest)) : Prop :=
  List.Forall₂ (fun r qs => r.data = printAll qs ∧ qs ≠ []) tr batches

/-- The requests that the reads serve: one each, in the order they came. -/
def served (tr : List HttpRead) (qs : List ClientRequest) : List HttpRequest :=
  List.zipWith (fun r q => q.parsed r.receiveTime) tr qs

/-- Requests behind those that are served do not count. -/
theorem served_append {tr : List HttpRead} {qs : List ClientRequest} (h : tr.length ≤ qs.length)
    (more : List ClientRequest) : served tr (qs ++ more) = served tr qs := by
  induction tr generalizing qs with
  | nil => rfl
  | cons r tr ih =>
    cases qs with
    | nil => cases h
    | cons q qs => exact congrArg (q.parsed r.receiveTime :: ·) (ih (Nat.le_of_succ_le_succ h))

theorem served_snoc {tr : List HttpRead} {qs rest : List ClientRequest} {q : ClientRequest}
    (h : qs.drop tr.length = q :: rest) (r : HttpRead) :
    served (tr ++ [r]) qs = served tr qs ++ [q.parsed r.receiveTime] := by
  induction tr generalizing qs with
  | nil =>
    have hqs : qs = q :: rest := h
    rw [hqs]
    rfl
  | cons s tr ih =>
    cases qs with
    | nil => cases h
    | cons p qs => exact congrArg (p.parsed s.receiveTime :: ·) (ih h)

/-- **One read, one request.** As many requests have been handled as there were reads,
    the first ones; the others wait in the input buffer, in order. -/
theorem run_brings {tr : List HttpRead} {t : HttpSession}
    (hrun : (system callback).Run start tr t) {batches : List (List ClientRequest)}
    (hbrings : Brings tr batches) :
    t.events = (served tr batches.flatten).flatMap (onRequest callback) ∧ t.input.Valid ∧
      t.input.readable = printAll (batches.flatten.drop tr.length) ∧
      tr.length ≤ batches.flatten.length := by
  induction hrun generalizing batches with
  | nil =>
    cases hbrings
    exact ⟨rfl, start_empty.1, start_empty.2, Nat.le_refl 0⟩
  | @snoc tr t u r hrun hstep ih =>
    obtain ⟨bs, b, rfl, hbs, hdata, hne⟩ := Journal.forall₂_of_concat hbrings
    obtain ⟨hevents, _, hread, hlen⟩ := ih hbs
    obtain ⟨_, _, b', ⟨hvalid, hread'⟩, rfl⟩ := hstep
    have hqueue : b'.readable = printAll ((bs ++ [b]).flatten.drop tr.length) := by
      rw [hread', hread, hdata, List.flatten_append, List.flatten_singleton,
        List.drop_append_of_le_length hlen, printAll_append]
    -- some request is in front: the read brought one at least
    have hlen' : tr.length < (bs ++ [b]).flatten.length := by
      have hpos := List.length_pos_iff.mpr hne
      rw [List.flatten_append, List.flatten_singleton, List.length_append]
      omega
    obtain ⟨q, hq⟩ : ∃ q, (bs ++ [b]).flatten.drop tr.length =
        q :: (bs ++ [b]).flatten.drop (tr.length + 1) := ⟨_, List.drop_eq_getElem_cons hlen'⟩
    rw [hq, printAll_cons] at hqueue
    obtain ⟨c, hmessage, hvalid', hrest⟩ := onMessage_print callback q r.receiveTime hvalid hqueue
    have hserved : served (tr ++ [r]) (bs ++ [b]).flatten =
        served tr bs.flatten ++ [q.parsed r.receiveTime] := by
      rw [served_snoc hq, List.flatten_append, served_append hlen]
    rw [List.length_append, List.length_singleton]
    refine ⟨?_, ?_, ?_, hlen'⟩
    · show t.events ++ (onMessage callback b' r.receiveTime).2 = _
      rw [hmessage, hserved, List.flatMap_append, List.flatMap_singleton, hevents]
    · show (onMessage callback b' r.receiveTime).1.Valid
      rw [hmessage]
      exact hvalid'
    · show (onMessage callback b' r.receiveTime).1.readable = _
      rw [hmessage]
      exact hrest

/-- The requests handed to `http_callback_`. -/
def requests (events : List HttpEvent) : List HttpRequest :=
  events.filterMap fun
    | .request req => some req
    | .send _ | .shutdown | .fault _ => none

theorem requests_onRequest (callback : HttpCallback) (reqs : List HttpRequest) :
    requests (reqs.flatMap (onRequest callback)) = reqs := by
  induction reqs with
  | nil => rfl
  | cons req reqs ih =>
    have hone : requests (onRequest callback req) = [req] := by
      unfold onRequest
      extract_lets _ _ response
      cases response.appendToBuffer (Buffer.new Buffer.kInitialSize) with
      | error f => rfl
      | ok buf => cases response.closeConnection <;> rfl
    rw [requests, List.flatMap_cons, List.filterMap_append]
    show requests (onRequest callback req) ++ requests (reqs.flatMap (onRequest callback)) = _
    rw [hone, ih]
    rfl

theorem no_fault (h : Proper callback) (reqs : List HttpRequest) (f : Fault) :
    .fault f ∉ reqs.flatMap (onRequest callback) := by
  intro hmem
  obtain ⟨req, _, hreq⟩ := List.mem_flatMap.mp hmem
  rw [onRequest_answer h] at hreq
  cases hclose : (answer callback req).closeConnection <;> simp [hclose] at hreq

/-- What is sent before the connection is shut down are the responses up to the first
    that closes it. -/
theorem sent_answers (h : Proper callback) (reqs : List HttpRequest) :
    sent (reqs.flatMap (onRequest callback)) =
      (allPieces (untilClose (reqs.map (answer callback)))).flatten := by
  induction reqs with
  | nil => rfl
  | cons req reqs ih =>
    have hkeep : ∀ (r : HttpRequest) (data : List Byte) (later : List HttpEvent),
        sent (.request r :: .send data :: later) = data ++ sent later := fun _ _ _ => rfl
    have hshut : ∀ later : List HttpEvent, sent (.shutdown :: later) = [] := fun _ => rfl
    rw [List.flatMap_cons, onRequest_answer h, List.map_cons, untilClose]
    cases hclose : (answer callback req).closeConnection with
    | true =>
      rw [if_pos rfl, if_pos rfl, List.cons_append, List.cons_append, hkeep, List.cons_append, hshut,
        allPieces_cons]
      rfl
    | false =>
      rw [if_neg Bool.false_ne_true, if_neg Bool.false_ne_true, List.cons_append, List.cons_append,
        List.nil_append, hkeep, ih, allPieces_cons]

/-- The responses that a client gets. -/
def answers (callback : HttpCallback) (reqs : List HttpRequest) : List HttpResponse :=
  untilClose (reqs.map (answer callback))

theorem answers_plain (h : Proper callback) (reqs : List HttpRequest) :
    ∀ r ∈ answers callback reqs, r.Plain := by
  intro r hr
  obtain ⟨req, _, rfl⟩ := List.mem_map.mp (mem_of_mem_untilClose hr)
  exact (h req (wantsClose req)).1

/-- A client recovers the responses from the bytes. -/
theorem readAll_answers (h : Proper callback) (reqs : List HttpRequest) :
    ResponseReader.readAll (allPieces (answers callback reqs)).flatten =
      some ((answers callback reqs).map reading) :=
  readResponses_text (answers_plain h reqs) (dropLast_untilClose _)
    (length_allPieces (answers_plain h reqs))

/-- **Requests and responses.** Let each read bring whole requests, one or several. However
    many have come by then, each read hands exactly one to the callback, in the order they
    were sent, with what the client meant in it; the others wait in the input buffer.
    Nothing fails, and a client that reads what was sent before the shutdown finds one
    response for each request handled, in order, up to the first that closes. -/
theorem one_request_a_read (hproper : Proper callback) {tr : List HttpRead} {t : HttpSession}
    (hrun : (system callback).Run start tr t) {batches : List (List ClientRequest)}
    (hbrings : Brings tr batches) :
    requests t.events = served tr batches.flatten ∧
      t.input.readable = printAll (batches.flatten.drop tr.length) ∧
      (∀ f, .fault f ∉ t.events) ∧
      ResponseReader.readAll (sent t.events) =
        some ((answers callback (served tr batches.flatten)).map reading) := by
  obtain ⟨hevents, _, hread, _⟩ := run_brings hrun hbrings
  rw [hevents]
  refine ⟨requests_onRequest callback _, hread, no_fault hproper _, ?_⟩
  rw [sent_answers hproper]
  exact readAll_answers hproper _

/-- A read that leaves the bytes at the front of a buffer of their size. -/
theorem step_delivered (callback : HttpCallback) {t : HttpSession} (hok : ∀ f, .fault f ∉ t.events)
    {r : HttpRead} (hne : r.data ≠ [])
    (hfit : (t.input.readable ++ r.data).length + Buffer.kCheapPrepend ≤ maxSize) :
    ∃ u, (system callback).step t r u :=
  ⟨_, hok, hne, Buffer.holding (t.input.readable ++ r.data),
    ⟨Buffer.holding_valid hfit, Buffer.holding_readable _⟩, rfl⟩

/-- A request for a path. -/
def sampleRequest (path : List Byte) (h : 32 ∉ path) (h' : NoCRLF path) : ClientRequest where
  method := .get
  target := path
  version := .http11
  headers := []
  method_ne := by decide
  version_ne := by decide
  blank := h
  line := h'
  names := List.forall_mem_nil _
  values := List.forall_mem_nil _

/-- Answers with a text and leaves the rest as it is. -/
def sampleCallback : HttpCallback := fun _ resp =>
  { resp with statusCode := .ok, statusMessage := ascii "OK", body := ascii "hello" }

theorem sampleCallback_proper : Proper sampleCallback := by
  intro req close
  have hval : sampleCallback req (.new close) = sampleCallback {} (.new close) := rfl
  rw [hval]
  refine ⟨⟨?_, ?_, ?_⟩, HttpResponse.short_iff.mpr ?_, ?_⟩ <;> cases close <;> decide +kernel

/-- Two requests in one read: one is answered, the other waits. -/
theorem one_request_a_read_sample : ∃ (q p : ClientRequest) (t : HttpSession),
    q.target = ascii "/a" ∧ p.target = ascii "/b" ∧
      (system sampleCallback).Run start [⟨printAll [q, p], 0⟩] t ∧
      (requests t.events).map HttpRequest.path = [ascii "/a"] ∧ t.input.readable = p.print ∧
      (ResponseReader.readAll (sent t.events)).map (List.map ResponseReading.body) =
        some [ascii "hello"] := by
  let q := sampleRequest (ascii "/a") (by decide) (by decide)
  let p := sampleRequest (ascii "/b") (by decide) (by decide)
  have hne : printAll [q, p] ≠ [] := by decide
  obtain ⟨t, ht⟩ := step_delivered sampleCallback (t := start) (fun _ => List.not_mem_nil)
    (r := ⟨printAll [q, p], 0⟩) hne (by rw [start_empty.2]; decide)
  have hrun := Transition.System.Run.single ht
  have hbrings : Brings [⟨printAll [q, p], 0⟩] [[q, p]] :=
    .cons ⟨rfl, List.cons_ne_nil _ _⟩ .nil
  obtain ⟨hrequests, hwaiting, _, hread⟩ := one_request_a_read sampleCallback_proper hrun hbrings
  refine ⟨q, p, t, rfl, rfl, hrun, ?_, ?_, ?_⟩
  · rw [hrequests]
    decide
  · rw [hwaiting]
    exact List.append_nil _
  · rw [hread]
    decide +kernel

end HttpSession

end DamnWebServer
