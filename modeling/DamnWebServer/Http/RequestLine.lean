import DamnWebServer.Http.Digest

/-!
# Request lines

The grammar of a request line. `process_request_line` stores what was printed, and accepts
the lines of the grammar and no others.
-/

namespace DamnWebServer

/-- `method_string()`. -/
def Method.toBytes : Method → List Byte
  | .get => ascii "GET"
  | .post => ascii "POST"
  | .head => ascii "HEAD"
  | .put => ascii "PUT"
  | .delete => ascii "DELETE"
  | .invalid => ascii "UNKNOWN"

/-- `METHOD SP target SP HTTP/version`. -/
def requestLine (m : Method) (target : List Byte) (v : Version) : List Byte :=
  m.toBytes ++ 32 :: (target ++ 32 :: (ascii "HTTP/" ++ v.toBytes))

/-- A request line: one of the five methods, a target without a blank, one of the
    two versions. -/
def IsRequestLine (line : List Byte) : Prop :=
  ∃ m target v, m ≠ .invalid ∧ v ≠ .unknown ∧ 32 ∉ target ∧ line = requestLine m target v

theorem blank_not_mem_method (m : Method) : 32 ∉ m.toBytes := by
  cases m <;> decide

theorem methodOf_toBytes {m : Method} (h : m ≠ .invalid) : HttpRequest.methodOf m.toBytes = m := by
  cases m with
  | invalid => exact absurd rfl h
  | get | post | head | put | delete => rfl

theorem toBytes_methodOf {text : List Byte} (h : HttpRequest.methodOf text ≠ .invalid) :
    text = (HttpRequest.methodOf text).toBytes := by
  unfold HttpRequest.methodOf at h ⊢
  split
  · assumption
  split
  · assumption
  split
  · assumption
  split
  · assumption
  split
  · assumption
  · rename_i h₁ h₂ h₃ h₄ h₅
    rw [if_neg h₁, if_neg h₂, if_neg h₃, if_neg h₄, if_neg h₅] at h
    exact absurd rfl h

theorem setVersion_toBytes (r : HttpRequest) {v : Version} (h : v ≠ .unknown) :
    r.setVersion (ascii "HTTP/" ++ v.toBytes) = ({ r with version := v }, true) := by
  cases v with
  | unknown => exact absurd rfl h
  | http10 => rfl
  | http11 => rfl

theorem toBytes_setVersion {r : HttpRequest} {text : List Byte} (h : (r.setVersion text).2 = true) :
    ∃ v, v ≠ .unknown ∧ text = ascii "HTTP/" ++ Version.toBytes v := by
  unfold HttpRequest.setVersion at h
  split at h
  · rename_i htext
    have hcut := List.take_append_drop 7 text
    rw [htext.2] at hcut
    split at h
    · rename_i hlast
      rw [hlast] at hcut
      exact ⟨.http11, by decide, hcut.symm⟩
    · split at h
      · rename_i hlast
        rw [hlast] at hcut
        exact ⟨.http10, by decide, hcut.symm⟩
      · cases h
  · cases h

/-- A printed request line is read back. -/
theorem processRequestLine_requestLine {m : Method} {target : List Byte} {v : Version}
    (hm : m ≠ .invalid) (hv : v ≠ .unknown) (htarget : 32 ∉ target) :
    ({} : HttpRequest).processRequestLine (requestLine m target v) =
      .ok ({ ({ method := m } : HttpRequest).setTarget target with version := v }, true) := by
  have hmethod : findByte 32 (requestLine m target v) =
      some (m.toBytes, target ++ 32 :: (ascii "HTTP/" ++ v.toBytes)) :=
    findByte_eq_some.mpr ⟨rfl, blank_not_mem_method m⟩
  have hrest : findByte 32 (target ++ 32 :: (ascii "HTTP/" ++ v.toBytes)) =
      some (target, ascii "HTTP/" ++ v.toBytes) := findByte_eq_some.mpr ⟨rfl, htarget⟩
  have hset : ({} : HttpRequest).setMethod m.toBytes = .ok ({ method := m }, true) := by
    simp only [HttpRequest.setMethod, methodOf_toBytes hm, decide_true, require_true, bind,
      Except.bind]
    rw [decide_eq_true hm]
    rfl
  simp only [HttpRequest.processRequestLine, hmethod, hset, hrest, bind, Except.bind, if_true]
  rw [setVersion_toBytes _ hv]
  rfl

/-- `process_request_line` accepts the request lines of the grammar and no others. -/
theorem isRequestLine_iff {line : List Byte} : isRequestLine line = true ↔ IsRequestLine line := by
  constructor
  · intro h
    unfold isRequestLine HttpRequest.processRequestLine at h
    cases hfind : findByte 32 line with
    | none =>
      rw [hfind] at h
      cases h
    | some p =>
      obtain ⟨method, rest⟩ := p
      obtain ⟨hline, _⟩ := findByte_eq_some.mp hfind
      rw [hfind] at h
      by_cases hm : HttpRequest.methodOf method = .invalid
      · simp [HttpRequest.setMethod, hm, bind, Except.bind, pure, Except.pure] at h
      · cases hrest : findByte 32 rest with
        | none =>
          simp [HttpRequest.setMethod, hm, hrest, bind, Except.bind, pure, Except.pure] at h
        | some q =>
          obtain ⟨target, version⟩ := q
          obtain ⟨htarget, hno⟩ := findByte_eq_some.mp hrest
          simp only [HttpRequest.setMethod, hrest, bind, Except.bind, pure, Except.pure,
            decide_true, require_true, ne_eq, hm, not_false_eq_true, if_true] at h
          obtain ⟨v, hv, hversion⟩ := toBytes_setVersion h
          refine ⟨_, target, v, hm, hv, hno, ?_⟩
          rw [requestLine, ← toBytes_methodOf hm, ← hversion, ← htarget]
          exact hline
  · rintro ⟨m, target, v, hm, hv, htarget, rfl⟩
    rw [isRequestLine, processRequestLine_requestLine hm hv htarget]

instance : DecidablePred IsRequestLine := fun _ => decidable_of_iff _ isRequestLine_iff

/-- A line that `process_request_line` rejects. -/
theorem isRequestLine_eq_false {line : List Byte} : isRequestLine line = false ↔ ¬IsRequestLine line := by
  rw [← isRequestLine_iff, Bool.not_eq_true]

end DamnWebServer
