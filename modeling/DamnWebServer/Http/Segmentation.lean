import DamnWebServer.Http.Parsing
import DamnWebServer.Lib.Transition

/-!
# Reads of a connection and what the server makes of them

A client's bytes arrive in reads; each read appends its bytes to the input buffer
and is followed by one `on_message`. How the stream is cut into reads should not
matter. It does: a request line that was taken off the buffer is forgotten with
the context of its `on_message`, and the next line that arrives in a later read
is taken for a request line. `segmentation_independent_iff` says which streams
are safe.
-/

namespace DamnWebServer

structure HttpRead where
  data : List Byte
  receiveTime : Int

/-- The bytes of some reads, in order. -/
def HttpRead.stream (reads : List HttpRead) : List Byte := reads.flatMap HttpRead.data

/-- The server's side of one connection. -/
structure HttpSession where
  input : Buffer
  events : List HttpEvent

/-- A read leaves `b'` in place of `b`: how the bytes are laid out is open. -/
def Buffer.Delivers (b : Buffer) (data : List Byte) (b' : Buffer) : Prop :=
  b'.Valid ∧ b'.readable = b.readable ++ data

theorem Buffer.delivers_readFd {b : Buffer} {data : List Byte} {r : Buffer × Int × Option Errno}
    (h : b.Valid) (hlen : data.length ≤ b.iovecLength)
    (hok : b.readFd (.delivered data) = .ok r) : b.Delivers data r.1 := by
  obtain ⟨hv, hr, _⟩ := (readFd_delivered h hlen).of_eq_ok hok
  exact ⟨hv, hr⟩

theorem Buffer.delivers_holding {b : Buffer} {data : List Byte} (hempty : b.readable = [])
    (hfit : data.length + kCheapPrepend ≤ maxSize) : b.Delivers data (holding data) := by
  refine ⟨holding_valid hfit, ?_⟩
  rw [hempty, holding_readable, List.nil_append]

namespace HttpSession

def start : HttpSession := ⟨Buffer.new Buffer.kInitialSize, []⟩

/-- One read and the `on_message` after it. -/
def system (callback : HttpCallback) : Transition.System HttpSession HttpRead where
  init s := s = start
  step s r t := (∀ f, .fault f ∉ s.events) ∧ r.data ≠ [] ∧ ∃ b, s.input.Delivers r.data b ∧
    t = ⟨(HttpServer.onMessage callback b r.receiveTime).1,
      s.events ++ (HttpServer.onMessage callback b r.receiveTime).2⟩

/-- What happened before the first `shutdown()`. -/
def beforeShutdown (events : List HttpEvent) : List HttpEvent :=
  events.takeWhile (· ≠ .shutdown)

/-- The requests handed to `http_callback_`, but for their times. -/
def handed (events : List HttpEvent) : List HttpRequest :=
  (beforeShutdown events).filterMap fun
    | .request req => some { req with receiveTime := 0 }
    | _ => none

def sent (events : List HttpEvent) : List Byte :=
  (beforeShutdown events).flatMap fun
    | .send data => data
    | _ => []

/-- Any two ways to cut the stream into reads end with the same requests and the
    same bytes sent. -/
def SegmentationIndependent (callback : HttpCallback) (s : List Byte) : Prop :=
  ∀ tr₁ tr₂ t₁ t₂, HttpRead.stream tr₁ = s → HttpRead.stream tr₂ = s →
    (system callback).Run start tr₁ t₁ → (system callback).Run start tr₂ t₂ →
      handed t₁.events = handed t₂.events ∧ sent t₁.events = sent t₂.events

variable {callback : HttpCallback} {s : List Byte}

theorem start_empty : start.input.Valid ∧ start.input.readable = [] :=
  ⟨Buffer.new_valid (by decide), Buffer.new_readable _⟩

theorem stream_snoc (tr : List HttpRead) (r : HttpRead) :
    HttpRead.stream (tr ++ [r]) = HttpRead.stream tr ++ r.data := by
  rw [HttpRead.stream, List.flatMap_append, List.flatMap_singleton]
  rfl

-- ════════════════════════════════════════════════════════════════════════
-- Streams on which every cut gives the same
-- ════════════════════════════════════════════════════════════════════════

/-- Every line would do as a request line and every line but the first as a
    header. -/
def Quiet (s : List Byte) : Prop :=
  (∀ l ∈ lines s, IsRequestLine l) ∧ ∀ l ∈ (lines s).tail, hasColon l = true

/-- The first line is no request line. -/
def BadStart (s : List Byte) : Prop := ∃ l ls, lines s = l :: ls ∧ ¬IsRequestLine l

theorem mem_tail_of_mem {α : Type} {x y : α} {xs ys zs : List α} (h : x ∈ ys) :
    x ∈ (xs ++ (y :: ys) ++ zs).tail := by
  cases xs with
  | nil => exact List.mem_append_left _ h
  | cons w xs =>
    exact List.mem_append_left _ (List.mem_append_right _ (List.mem_cons_of_mem y h))

/-- On a quiet stream nothing ever happens. -/
theorem run_quiet (h : Quiet s) {tr : List HttpRead} {t : HttpSession}
    (hrun : (system callback).Run start tr t) :
    ∀ rest, s = HttpRead.stream tr ++ rest →
      t.events = [] ∧ t.input.Valid ∧ t.input.readable = unfinished (HttpRead.stream tr) := by
  induction hrun with
  | nil => exact fun _ _ => ⟨rfl, start_empty⟩
  | @snoc tr t _ r hrun hstep ih =>
    intro rest hs
    rw [stream_snoc, List.append_assoc] at hs
    obtain ⟨hev, hv, hread⟩ := ih _ hs
    obtain ⟨_, _, b, ⟨hb, hbr⟩, rfl⟩ := hstep
    rw [hread] at hbr
    -- the lines that this read completes are lines of the stream
    have hlines : lines s = lines (HttpRead.stream tr) ++ lines b.readable ++
        lines (unfinished (HttpRead.stream tr ++ r.data) ++ rest) := by
      rw [hs, ← List.append_assoc, lines_append, lines_append, hbr]
    rw [stream_snoc, unfinished_append, ← hbr, hev]
    cases hnew : lines b.readable with
    | nil =>
      rw [HttpServer.onMessage_no_line callback _ hnew, unfinished_of_lines_nil hnew]
      exact ⟨rfl, hb, rfl⟩
    | cons l ls =>
      rw [hnew] at hlines
      have hl : isRequestLine l = true := by
        refine isRequestLine_iff.mpr (h.1 l ?_)
        rw [hlines]
        exact List.mem_append_left _ (List.mem_append_right _ List.mem_cons_self)
      have hcolon : ∀ m ∈ ls, hasColon m = true := by
        intro m hm
        refine h.2 m ?_
        rw [hlines]
        exact mem_tail_of_mem hm
      obtain ⟨b', hok, hv', hr'⟩ := HttpServer.onMessage_open callback r.receiveTime hb hnew hl hcolon
      rw [hok]
      exact ⟨rfl, hv', hr'⟩

/-- On a stream with a bad first line, that line is answered when it is complete;
    what comes later is after the shutdown. -/
theorem run_badStart (h : BadStart s) {tr : List HttpRead} {t : HttpSession}
    (hrun : (system callback).Run start tr t) :
    ∀ rest, s = HttpRead.stream tr ++ rest →
      (lines (HttpRead.stream tr) = [] ∧ t.events = [] ∧ t.input.readable = HttpRead.stream tr) ∨
        ∃ later, t.events = .send HttpServer.badRequest :: .shutdown :: later := by
  obtain ⟨l, ls, hls, hbad⟩ := h
  induction hrun with
  | nil => exact fun _ _ => Or.inl ⟨rfl, rfl, start_empty.2⟩
  | @snoc tr t _ r hrun hstep ih =>
    intro rest hs
    rw [stream_snoc, List.append_assoc] at hs
    obtain ⟨_, _, b, ⟨hb, hbr⟩, rfl⟩ := hstep
    rcases ih _ hs with ⟨hnil, hev, hread⟩ | ⟨later, hev⟩
    · rw [hread] at hbr
      rw [stream_snoc, ← hbr, hev]
      cases hnew : lines b.readable with
      | nil =>
        rw [HttpServer.onMessage_no_line callback _ hnew]
        exact Or.inl ⟨rfl, rfl, rfl⟩
      | cons m ms =>
        have hm : m = l := by
          rw [hs, ← List.append_assoc, lines_append, ← hbr, hnew] at hls
          exact (List.cons.inj hls).1
        have hbad' := isRequestLine_eq_false.mpr (hm ▸ hbad)
        rw [HttpServer.onMessage_bad_line callback _ hb hnew hbad']
        exact Or.inr ⟨[], rfl⟩
    · refine Or.inr ⟨later ++ (HttpServer.onMessage callback b r.receiveTime).2, ?_⟩
      change t.events ++ _ = _
      rw [hev]
      rfl

theorem independent_of_quiet (h : Quiet s) : SegmentationIndependent callback s := by
  intro tr₁ tr₂ t₁ t₂ hs₁ hs₂ hrun₁ hrun₂
  have h₁ := (run_quiet h hrun₁ [] (by rw [hs₁, List.append_nil])).1
  have h₂ := (run_quiet h hrun₂ [] (by rw [hs₂, List.append_nil])).1
  rw [h₁, h₂]
  exact ⟨rfl, rfl⟩

theorem independent_of_badStart (h : BadStart s) : SegmentationIndependent callback s := by
  have hend : ∀ tr t, HttpRead.stream tr = s → (system callback).Run start tr t →
      handed t.events = [] ∧ sent t.events = HttpServer.badRequest := by
    intro tr t hs hrun
    rcases run_badStart h hrun [] (by rw [hs, List.append_nil]) with ⟨hnil, _⟩ | ⟨later, hev⟩
    · obtain ⟨l, ls, hls, _⟩ := h
      rw [hs, hls] at hnil
      cases hnil
    · rw [hev]
      exact ⟨rfl, List.append_nil _⟩
  intro tr₁ tr₂ t₁ t₂ hs₁ hs₂ hrun₁ hrun₂
  obtain ⟨hh₁, hw₁⟩ := hend tr₁ t₁ hs₁ hrun₁
  obtain ⟨hh₂, hw₂⟩ := hend tr₂ t₂ hs₂ hrun₂
  exact ⟨hh₁.trans hh₂.symm, hw₁.trans hw₂.symm⟩

-- ════════════════════════════════════════════════════════════════════════
-- Two cuts of any other stream
-- ════════════════════════════════════════════════════════════════════════

/-- A read into an empty buffer. -/
theorem step_holding (callback : HttpCallback) {t : HttpSession} (hread : t.input.readable = [])
    (hev : t.events = []) {data : List Byte} (hne : data ≠ [])
    (hfit : data.length + Buffer.kCheapPrepend ≤ maxSize) :
    (system callback).step t ⟨data, 0⟩
      ⟨(HttpServer.onMessage callback (Buffer.holding data) 0).1,
        (HttpServer.onMessage callback (Buffer.holding data) 0).2⟩ := by
  refine ⟨?_, hne, Buffer.holding data, Buffer.delivers_holding hread hfit, ?_⟩
  · rw [hev]
    exact fun _ => List.not_mem_nil
  · rw [hev]
    rfl

/-- The bytes behind the first line. -/
theorem cut_first_line {bs l : List Byte} {ls : List (List Byte)} (h : lines bs = l :: ls) :
    ∃ rest, bs = l ++ [13, 10] ++ rest ∧ lines rest = ls := by
  refine ⟨ls.flatMap (· ++ [13, 10]) ++ unfinished bs, ?_, ?_⟩
  · have hjoin := join_lines bs
    rw [h, List.flatMap_cons, List.append_assoc] at hjoin
    exact hjoin.symm
  · have hsplit := splitLines_line (lines_line (h ▸ List.mem_cons_self))
      (ls.flatMap (· ++ [13, 10]) ++ unfinished bs)
    have hjoin := join_lines bs
    rw [h, List.flatMap_cons, List.append_assoc, List.append_assoc] at hjoin
    have hlines : lines bs = l :: lines (ls.flatMap (· ++ [13, 10]) ++ unfinished bs) := by
      have hsame := congrArg splitLines hjoin.symm
      rw [lines, hsame]
      exact congrArg Prod.fst hsplit
    rw [h] at hlines
    exact (List.cons.inj hlines).2.symm

theorem handed_request (req : HttpRequest) (events : List HttpEvent) :
    handed (.request req :: events) = { req with receiveTime := 0 } :: handed events := by
  rfl

/-- A request that was parsed is handed over before anything else happens. -/
theorem onRequest_first (callback : HttpCallback) (req : HttpRequest) :
    ∃ later, HttpServer.onRequest callback req = .request req :: later := by
  unfold HttpServer.onRequest
  extract_lets _ _ response
  cases response.appendToBuffer (Buffer.new Buffer.kInitialSize) with
  | error f => exact ⟨[.fault f], rfl⟩
  | ok buf => exact ⟨_, List.cons_append⟩

/-- Every request line in a read of its own, up to the first line that is none:
    no request is ever completed, and that line is answered. -/
theorem run_line_by_line (callback : HttpCallback) (ls : List (List Byte)) {t : HttpSession}
    (hread : t.input.readable = []) (hev : t.events = []) {bs : List Byte} (hls : lines bs = ls)
    (hfit : bs.length + Buffer.kCheapPrepend ≤ maxSize) :
    ∃ tr u, HttpRead.stream tr = bs ∧ (system callback).Run t tr u ∧ handed u.events = [] ∧
      sent u.events = if ls.all isRequestLine then [] else HttpServer.badRequest := by
  have hv := Buffer.holding_valid hfit
  have hr := Buffer.holding_readable bs
  induction ls generalizing t bs with
  | nil =>
    by_cases hbs : bs = []
    · subst hbs
      refine ⟨[], t, rfl, .nil, ?_, ?_⟩ <;> rw [hev] <;> rfl
    · have hstep := step_holding callback hread hev hbs hfit
      rw [HttpServer.onMessage_no_line callback 0 (hr.symm ▸ hls)] at hstep
      exact ⟨[⟨bs, 0⟩], _, List.flatMap_singleton _ _, .single hstep, rfl, rfl⟩
  | cons l ls ih =>
    cases hl : isRequestLine l with
    | false =>
      have hbs : bs ≠ [] := by
        rintro rfl
        cases hls
      have hstep := step_holding callback hread hev hbs hfit
      rw [HttpServer.onMessage_bad_line callback 0 hv (hr.symm ▸ hls) hl] at hstep
      refine ⟨[⟨bs, 0⟩], _, List.flatMap_singleton _ _, .single hstep, rfl, ?_⟩
      rw [List.all_cons, hl]
      exact List.append_nil _
    | true =>
      -- the first line alone, then the others
      obtain ⟨rest, hbs, hrest⟩ := cut_first_line hls
      have hline : splitLines (l ++ [13, 10]) = ([l], []) :=
        splitLines_line (lines_line (hls ▸ List.mem_cons_self)) []
      have hlen := congrArg List.length hbs
      rw [List.length_append] at hlen
      have hv₁ : (Buffer.holding (l ++ [13, 10])).Valid := Buffer.holding_valid (by omega)
      have hr₁ := Buffer.holding_readable (l ++ [13, 10])
      have hlines₁ : lines (Buffer.holding (l ++ [13, 10])).readable = [l] := by
        rw [hr₁, lines, hline]
      obtain ⟨b, hok, hvb, hrb⟩ :=
        HttpServer.onMessage_open callback 0 hv₁ hlines₁ hl (List.forall_mem_nil _)
      have hne : l ++ [13, 10] ≠ [] :=
        List.append_ne_nil_of_right_ne_nil l (List.cons_ne_nil _ _)
      have hstep := step_holding callback hread hev hne (by omega)
      rw [hok] at hstep
      have hbr : b.readable = [] := by
        rw [hrb, hr₁, unfinished, hline]
      have hfit' : rest.length + Buffer.kCheapPrepend ≤ maxSize := by omega
      have hv₂ := Buffer.holding_valid hfit'
      have hr₂ := Buffer.holding_readable rest
      obtain ⟨tr, u, hstream, hrun, hhanded, hsent⟩ :=
        ih (t := ⟨b, []⟩) hbr rfl hrest hfit' hv₂ hr₂
      refine ⟨⟨l ++ [13, 10], 0⟩ :: tr, u, ?_, ?_, hhanded, ?_⟩
      · rw [HttpRead.stream, List.flatMap_cons, ← HttpRead.stream, hstream, hbs]
      · exact (Transition.System.Run.single hstep).append hrun
      · rw [List.all_cons, hl, Bool.true_and, hsent]

/-- A stream that is neither quiet nor badly started depends on its cuts: line by
    line it gives no request, in one read it gives one, or misses the answer to a
    bad line. -/
theorem not_independent (callback : HttpCallback)
    (hfit : s.length + Buffer.kCheapPrepend ≤ maxSize) (hquiet : ¬Quiet s)
    (hstart : ¬BadStart s) : ¬SegmentationIndependent callback s := by
  intro hall
  have hv := Buffer.holding_valid hfit
  have hr := Buffer.holding_readable s
  obtain ⟨tr, u, hstream, hrun, hhanded, hsent⟩ :=
    run_line_by_line callback (lines s) start_empty.2 rfl rfl hfit
  cases hls : lines s with
  | nil =>
    refine hquiet ⟨?_, ?_⟩ <;> rw [hls] <;> exact nofun
  | cons l ls =>
    have hl : isRequestLine l = true := by
      by_contra hbad
      exact hstart ⟨l, ls, hls, fun hline => hbad (isRequestLine_iff.mpr hline)⟩
    have hne : s ≠ [] := by
      rintro rfl
      cases hls
    have hone := step_holding callback start_empty.2 rfl hne hfit
    have hsame := hall tr [⟨s, 0⟩] u _ hstream (List.flatMap_singleton _ _) hrun (.single hone)
    by_cases hcolon : ∀ m ∈ ls, hasColon m = true
    · -- some later line is no request line
      have hinvalid : (lines s).all isRequestLine = false := by
        by_contra hvalid
        rw [Bool.not_eq_false, List.all_eq_true] at hvalid
        exact hquiet ⟨fun m hm => isRequestLine_iff.mp (hvalid m hm), by rw [hls]; exact hcolon⟩
      obtain ⟨b, hok, _, _⟩ := HttpServer.onMessage_open callback 0 hv (hr.symm ▸ hls) hl hcolon
      rw [hok] at hsame
      have heq := hsame.2
      rw [hsent, hinvalid] at heq
      cases heq
    · -- some later line ends the head
      have hend : ∃ m ∈ ls, hasColon m = false := by
        by_contra hno
        refine hcolon fun m hm => ?_
        by_contra hm'
        exact hno ⟨m, hm, Bool.not_eq_true _ ▸ hm'⟩
      obtain ⟨req, b, hok⟩ := HttpServer.onMessage_request callback 0 hv (hr.symm ▸ hls) hl hend
      obtain ⟨later, hlater⟩ := onRequest_first callback req
      rw [hok, hlater] at hsame
      have heq := hsame.1
      rw [hhanded, handed_request] at heq
      cases heq

/-- **Segmentation independence** holds of exactly the streams that are quiet or
    begin with a line that is no request line, whatever the callback. -/
theorem segmentation_independent_iff (callback : HttpCallback) (s : List Byte)
    (hfit : s.length + Buffer.kCheapPrepend ≤ maxSize) :
    SegmentationIndependent callback s ↔
      ((∀ l ∈ lines s, IsRequestLine l) ∧ ∀ l ∈ (lines s).tail, hasColon l = true) ∨
        ∃ l ls, lines s = l :: ls ∧ ¬IsRequestLine l := by
  constructor
  · intro hind
    by_cases hquiet : Quiet s
    · exact Or.inl hquiet
    · refine Or.inr ?_
      by_contra hstart
      exact not_independent callback hfit hquiet hstart hind
  · rintro (hquiet | hstart)
    · exact independent_of_quiet hquiet
    · exact independent_of_badStart hstart

theorem segmentation_independent_iff_sample :
    ¬SegmentationIndependent defaultHttpCallback (ascii "GET / HTTP/1.1\r\nHost: a\r\n\r\n") ∧
      SegmentationIndependent defaultHttpCallback (ascii "hello\r\n") := by
  constructor
  · intro hind
    have hval : lines (ascii "GET / HTTP/1.1\r\nHost: a\r\n\r\n") =
        [ascii "GET / HTTP/1.1", ascii "Host: a", []] := by decide
    rcases (segmentation_independent_iff _ _ (by decide)).mp hind with ⟨hlines, _⟩ | ⟨l, ls, hls, hbad⟩
    · exact absurd (hlines [] (by decide)) (by decide)
    · rw [hval] at hls
      rw [← (List.cons.inj hls).1] at hbad
      exact absurd hbad (by decide)
  · refine (segmentation_independent_iff _ _ (by decide)).mpr (Or.inr ⟨ascii "hello", [], ?_, ?_⟩) <;>
      decide

/-- A plain request is enough: one read answers it, two reads do not. -/
theorem segmentation_dependent :
    ¬SegmentationIndependent defaultHttpCallback (ascii "GET / HTTP/1.1\r\n\r\n") := by
  refine not_independent defaultHttpCallback (by decide) ?_ ?_
  · intro hquiet
    exact absurd (hquiet.1 [] (by decide)) (by decide)
  · rintro ⟨l, ls, hls, hbad⟩
    have hval : lines (ascii "GET / HTTP/1.1\r\n\r\n") = [ascii "GET / HTTP/1.1", []] := by decide
    rw [hval] at hls
    rw [← (List.cons.inj hls).1] at hbad
    exact absurd hbad (by decide)

end HttpSession

end DamnWebServer
