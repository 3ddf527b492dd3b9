import DamnWebServer.Lib.Potential

/-!
# Monitors

A mutex with one condition variable, and procedures of the form
`lock; while (!guard) wait; body; notify; unlock` on the data it guards. Any number of
threads call them, one call at a time each. A step is one operation of the mutex or of
the condition variable, so calls interleave between any two of them; a thread that waits
may be woken for no reason.

What the lock gives is proved here once: one thread at a time is inside, the field that
names the holder is right, and the data is what the bodies make of it one after the
other. So is what the condition variable gives, if whoever makes a guard true notifies:
no thread sleeps on a guard that holds unless its notification is on the way, and where
no thread can go on, every call has returned but those whose guard does not hold.

## Main definitions

- `Monitor.Procedure` — guard, body, and whom to notify
- `Monitor.Step`, `Monitor.system` — the operations of the threads
- `Monitor.Serial` — the bodies one after the other
- `Monitor.Announces` — whoever makes a guard true notifies
-/

namespace Monitor

/-- Whom a procedure notifies when its body is done. -/
inductive Notice where
  | nobody | one | all
  deriving DecidableEq

structure Procedure (σ ρ : Type*) where
  guard : σ → Bool
  body : σ → σ × ρ
  /-- Looks at the data that the body leaves. -/
  notice : σ → Notice

/-- Where a thread is in its call. -/
inductive Phase (κ ρ : Type*) where
  | outside
  /-- It wants the mutex, at first or after it has been woken. -/
  | entering (c : κ)
  /-- It has the mutex and has not yet signed in as its holder. -/
  | locked (c : κ)
  /-- It is to look at the guard. -/
  | testing (c : κ)
  /-- It has signed out and is about to wait. -/
  | yielding (c : κ)
  | asleep (c : κ)
  | notifying (c : κ) (r : ρ)
  | leaving (c : κ) (r : ρ)
  /-- It has signed out and still has the mutex. -/
  | unlocking (c : κ) (r : ρ)

variable {τ κ σ ρ : Type*}

namespace Phase

/-- The thread has the mutex. -/
def Owns : Phase κ ρ → Prop
  | .outside | .entering _ | .asleep _ => False
  | .locked _ | .testing _ | .yielding _ | .notifying _ _ | .leaving _ _ | .unlocking _ _ => True

/-- The thread is signed in. -/
def Holds : Phase κ ρ → Prop
  | .outside | .entering _ | .asleep _ | .locked _ | .yielding _ | .unlocking _ _ => False
  | .testing _ | .notifying _ _ | .leaving _ _ => True

theorem Holds.owns {p : Phase κ ρ} (h : p.Holds) : p.Owns := by
  cases p <;> first | exact h | trivial

/-- The call the thread is in. -/
def call : Phase κ ρ → Option κ
  | .outside => none
  | .entering c | .locked c | .testing c | .yielding c | .asleep c | .notifying c _ | .leaving c _
  | .unlocking c _ => some c

theorem eq_outside {p : Phase κ ρ} (h : p.call = none) : p = .outside := by
  cases p with
  | outside => rfl
  | entering _ | locked _ | testing _ | yielding _ | asleep _ | notifying _ _ | leaving _ _
  | unlocking _ _ => cases h

/-- A notification reaches the thread. -/
def wake : Phase κ ρ → Phase κ ρ
  | .asleep c => .entering c
  | p => p

end Phase

/-- The body of a call, by whom it was run and what it returned. -/
structure Entry (τ κ ρ : Type*) where
  thread : τ
  call : κ
  result : ρ

structure State (τ κ σ ρ : Type*) where
  data : σ
  owner : Option τ
  /-- What the owner writes of itself. -/
  holder : Option τ
  phase : τ → Phase κ ρ
  /-- The bodies that have been run, oldest first. -/
  log : List (Entry τ κ ρ)

/-- What is seen of a step from outside. -/
inductive Event (τ κ ρ : Type*) where
  | call (t : τ) (c : κ)
  /-- A step inside the call. -/
  | inner (t : τ)
  /-- The thread is woken for no reason. -/
  | wake (t : τ)
  | return (t : τ) (c : κ) (r : ρ)

/-- The thread that makes the step. -/
def Event.thread : Event τ κ ρ → τ
  | .call t _ | .inner t | .wake t | .return t _ _ => t

/-- Nobody is inside. -/
def State.start (s : σ) : State τ κ σ ρ where
  data := s
  owner := none
  holder := none
  phase _ := .outside
  log := []

variable [DecidableEq τ]

def State.move (m : State τ κ σ ρ) (t : τ) (p : Phase κ ρ) : State τ κ σ ρ :=
  { m with phase := Function.update m.phase t p }

/-- One operation of one thread; `may` says which calls a thread may make. -/
inductive Step (proc : κ → Procedure σ ρ) (may : τ → κ → Prop) (m : State τ κ σ ρ) :
    Event τ κ ρ → State τ κ σ ρ → Prop where
  | call {t : τ} {c : κ} (hphase : m.phase t = .outside) (hmay : may t c) :
      Step proc may m (.call t c) (m.move t (.entering c))
  | lock {t : τ} {c : κ} (hphase : m.phase t = .entering c) (hfree : m.owner = none) :
      Step proc may m (.inner t) { m.move t (.locked c) with owner := some t }
  | assign {t : τ} {c : κ} (hphase : m.phase t = .locked c) :
      Step proc may m (.inner t) { m.move t (.testing c) with holder := some t }
  /-- The guard does not hold: `wait()`, which signs out first. -/
  | wait {t : τ} {c : κ} (hphase : m.phase t = .testing c) (hguard : (proc c).guard m.data = false) :
      Step proc may m (.inner t) { m.move t (.yielding c) with holder := none }
  /-- The mutex is given up and the thread put to sleep at once. -/
  | sleep {t : τ} {c : κ} (hphase : m.phase t = .yielding c) :
      Step proc may m (.inner t) { m.move t (.asleep c) with owner := none }
  | wake {t : τ} {c : κ} (hphase : m.phase t = .asleep c) :
      Step proc may m (.wake t) (m.move t (.entering c))
  | body {t : τ} {c : κ} (hphase : m.phase t = .testing c) (hguard : (proc c).guard m.data = true) :
      Step proc may m (.inner t)
        { m.move t (.notifying c ((proc c).body m.data).2) with
          data := ((proc c).body m.data).1
          log := m.log ++ [⟨t, c, ((proc c).body m.data).2⟩] }
  | notifyNobody {t : τ} {c : κ} {r : ρ} (hphase : m.phase t = .notifying c r)
      (hnotice : (proc c).notice m.data = .nobody) :
      Step proc may m (.inner t) (m.move t (.leaving c r))
  | notifyAll {t : τ} {c : κ} {r : ρ} (hphase : m.phase t = .notifying c r)
      (hnotice : (proc c).notice m.data = .all) :
      Step proc may m (.inner t)
        (State.move { m with phase := fun u => (m.phase u).wake } t (.leaving c r))
  | notifyOne {t u : τ} {c d : κ} {r : ρ} (hphase : m.phase t = .notifying c r)
      (hnotice : (proc c).notice m.data = .one) (hasleep : m.phase u = .asleep d) :
      Step proc may m (.inner t) ((m.move u (.entering d)).move t (.leaving c r))
  /-- Nobody sleeps: the notification is gone. -/
  | notifyNone {t : τ} {c : κ} {r : ρ} (hphase : m.phase t = .notifying c r)
      (hnotice : (proc c).notice m.data = .one) (hnone : ∀ u d, m.phase u ≠ .asleep d) :
      Step proc may m (.inner t) (m.move t (.leaving c r))
  | unassign {t : τ} {c : κ} {r : ρ} (hphase : m.phase t = .leaving c r) :
      Step proc may m (.inner t) { m.move t (.unlocking c r) with holder := none }
  | unlock {t : τ} {c : κ} {r : ρ} (hphase : m.phase t = .unlocking c r) :
      Step proc may m (.return t c r) { m.move t .outside with owner := none }

def system (proc : κ → Procedure σ ρ) (may : τ → κ → Prop) (s : σ) :
    Transition.System (State τ κ σ ρ) (Event τ κ ρ) where
  init m := m = .start s
  step := Step proc may

variable {proc : κ → Procedure σ ρ} {may : τ → κ → Prop} {m m' : State τ κ σ ρ} {e : Event τ κ ρ}
  {t u : τ} {c : κ} {r : ρ} {s : σ}

@[simp] theorem move_self (m : State τ κ σ ρ) (t : τ) (p : Phase κ ρ) : (m.move t p).phase t = p :=
  Function.update_self _ _ _

theorem move_of_ne (m : State τ κ σ ρ) (p : Phase κ ρ) (h : u ≠ t) :
    (m.move t p).phase u = m.phase u :=
  Function.update_of_ne h _ _

theorem Step.of_call (h : Step proc may m (.call t c) m') :
    m.phase t = .outside ∧ m'.phase t = .entering c := by
  cases h with
  | call hphase _ => exact ⟨hphase, move_self m t _⟩

theorem Step.of_return (h : Step proc may m (.return t c r) m') :
    m.phase t = .unlocking c r ∧ m'.phase t = .outside := by
  cases h with
  | unlock hphase => exact ⟨hphase, move_self m t _⟩

-- ════════════════════════════════════════════════════════════════════════
-- Mutual exclusion
-- ════════════════════════════════════════════════════════════════════════

/-- The option names the one thread whose phase has `P`, or there is none. -/
def Names (o : Option τ) (phase : τ → Phase κ ρ) (P : Phase κ ρ → Prop) : Prop :=
  ∀ u, o = some u ↔ P (phase u)

section Names

variable {o : Option τ} {phase : τ → Phase κ ρ} {p : Phase κ ρ} {P : Phase κ ρ → Prop}

omit [DecidableEq τ] in
theorem Names.eq (h : Names o phase P) (ht : P (phase t)) (hu : P (phase u)) : t = u :=
  Option.some.inj (((h t).mpr ht).symm.trans ((h u).mpr hu))

omit [DecidableEq τ] in
theorem Names.nobody (h : Names none phase P) (u : τ) : ¬P (phase u) := by
  intro hu
  cases (h u).mpr hu

/-- Who moves keeps it, or goes on without it. -/
theorem Names.keep (h : Names o phase P) (hkeep : P p ↔ P (phase t)) :
    Names o (Function.update phase t p) P := by
  intro u
  by_cases hu : u = t
  · subst hu
    rw [Function.update_self, hkeep, h u]
  · rw [Function.update_of_ne hu, h u]

/-- Nobody had it; now the one who moves has. -/
theorem Names.take (hnobody : ∀ u, ¬P (phase u)) (hnew : P p) :
    Names (some t) (Function.update phase t p) P := by
  intro u
  by_cases hu : u = t
  · subst hu
    rw [Function.update_self]
    exact ⟨fun _ => hnew, fun _ => rfl⟩
  · rw [Function.update_of_ne hu]
    exact ⟨fun heq => absurd (Option.some.inj heq).symm hu, fun hP => absurd hP (hnobody u)⟩

/-- The one who moves had it; now nobody has. -/
theorem Names.drop (h : Names o phase P) (hold : P (phase t)) (hnew : ¬P p) :
    Names none (Function.update phase t p) P := by
  intro u
  by_cases hu : u = t
  · subst hu
    rw [Function.update_self]
    exact ⟨fun heq => absurd heq (Option.some_ne_none u).symm, fun hP => absurd hP hnew⟩
  · rw [Function.update_of_ne hu]
    exact ⟨fun heq => absurd heq (Option.some_ne_none u).symm, fun hP => absurd (h.eq hP hold) hu⟩

end Names

/-- The mutex and its holder. -/
structure Exclusive (m : State τ κ σ ρ) : Prop where
  owner : Names m.owner m.phase Phase.Owns
  holder : Names m.holder m.phase Phase.Holds

omit [DecidableEq τ] in
theorem start_exclusive (s : σ) : Exclusive (.start s : State τ κ σ ρ) where
  owner u := ⟨fun heq => absurd heq (Option.some_ne_none u).symm, False.elim⟩
  holder u := ⟨fun heq => absurd heq (Option.some_ne_none u).symm, False.elim⟩

/-- A thread moves on, with what it has. -/
theorem Exclusive.move (h : Exclusive m) {p : Phase κ ρ} (howns : p.Owns ↔ (m.phase t).Owns)
    (hholds : p.Holds ↔ (m.phase t).Holds) : Exclusive (m.move t p) :=
  ⟨h.owner.keep howns, h.holder.keep hholds⟩

omit [DecidableEq τ] in
/-- Sleepers are woken; none of them has the mutex. -/
theorem Exclusive.woken (h : Exclusive m) :
    Exclusive { m with phase := fun u => (m.phase u).wake } := by
  refine ⟨fun u => ?_, fun u => ?_⟩
  · rw [h.owner u]
    show (m.phase u).Owns ↔ (m.phase u).wake.Owns
    cases m.phase u <;> exact Iff.rfl
  · rw [h.holder u]
    show (m.phase u).Holds ↔ (m.phase u).wake.Holds
    cases m.phase u <;> exact Iff.rfl

/-- **Every operation** leaves one thread inside at most, and its name on the door. -/
theorem Exclusive.step (h : Exclusive m) (hstep : Step proc may m e m') : Exclusive m' := by
  cases hstep with
  | call hphase _ | wake hphase | notifyNobody hphase _ | notifyNone hphase _ _ =>
    exact h.move (by rw [hphase]; exact Iff.rfl) (by rw [hphase]; exact Iff.rfl)
  | body hphase _ =>
    exact ⟨h.owner.keep (by rw [hphase]; exact Iff.rfl), h.holder.keep (by rw [hphase]; exact Iff.rfl)⟩
  | lock hphase hfree =>
    have hfreed := h.owner
    rw [hfree] at hfreed
    exact ⟨.take hfreed.nobody trivial, h.holder.keep (by rw [hphase]; exact Iff.rfl)⟩
  | @assign t c hphase =>
    have howns : (m.phase t).Owns := by
      rw [hphase]
      trivial
    have hnobody : ∀ u, ¬(m.phase u).Holds := by
      intro u hu
      rw [← h.owner.eq howns hu.owns, hphase] at hu
      exact hu
    exact ⟨h.owner.keep (by rw [hphase]; exact Iff.rfl), .take hnobody trivial⟩
  | wait hphase _ | unassign hphase =>
    exact ⟨h.owner.keep (by rw [hphase]; exact Iff.rfl),
      h.holder.drop (by rw [hphase]; trivial) id⟩
  | sleep hphase | unlock hphase =>
    exact ⟨h.owner.drop (by rw [hphase]; trivial) id,
      h.holder.keep (by rw [hphase]; exact Iff.rfl)⟩
  | @notifyAll t c r hphase _ =>
    have hwake : (m.phase t).wake = .notifying c r := by
      rw [hphase]
      rfl
    exact h.woken.move (by show _ ↔ (m.phase t).wake.Owns; rw [hwake]; exact Iff.rfl)
      (by show _ ↔ (m.phase t).wake.Holds; rw [hwake]; exact Iff.rfl)
  | @notifyOne t u c d r hphase _ hasleep =>
    have hne : t ≠ u := by
      rintro rfl
      rw [hphase] at hasleep
      cases hasleep
    have hidle : Exclusive (m.move u (.entering d)) :=
      h.move (by rw [hasleep]; exact Iff.rfl) (by rw [hasleep]; exact Iff.rfl)
    have hsame : (m.move u (.entering d)).phase t = .notifying c r := by
      rw [move_of_ne m _ hne, hphase]
    exact hidle.move (by rw [hsame]; exact Iff.rfl) (by rw [hsame]; exact Iff.rfl)

-- ════════════════════════════════════════════════════════════════════════
-- One body after the other
-- ════════════════════════════════════════════════════════════════════════

/-- The bodies of the log, run one after the other, lead from `s` to the second state;
    each finds its guard true and returns what the log says. -/
inductive Serial (proc : κ → Procedure σ ρ) (s : σ) : List (Entry τ κ ρ) → σ → Prop where
  | nil : Serial proc s [] s
  | snoc {log : List (Entry τ κ ρ)} {s' : σ} {t : τ} {c : κ} (h : Serial proc s log s')
      (hguard : (proc c).guard s' = true) :
      Serial proc s (log ++ [⟨t, c, ((proc c).body s').2⟩]) ((proc c).body s').1

omit [DecidableEq τ] in
/-- What the bodies so far have made is what an entry of the log has found. -/
theorem Serial.before {log : List (Entry τ κ ρ)} {s' : σ} {x : Entry τ κ ρ} (h : Serial proc s log s')
    (hx : x ∈ log) : ∃ pre post s₁, log = pre ++ x :: post ∧ Serial proc s pre s₁ ∧
      (proc x.call).guard s₁ = true ∧ x.result = ((proc x.call).body s₁).2 := by
  induction h with
  | nil => cases hx
  | @snoc log s' t c h hguard ih =>
    rcases List.mem_append.mp hx with hx | hx
    · obtain ⟨pre, post, s₁, rfl, hpre, hg, hr⟩ := ih hx
      exact ⟨pre, post ++ [⟨t, c, ((proc c).body s').2⟩], s₁, by simp, hpre, hg, hr⟩
    · obtain rfl := List.mem_singleton.mp hx
      exact ⟨log, [], s', rfl, h, hguard, rfl⟩

/-- What a thread has got from its call and not yet brought home. -/
def Phase.result : Phase κ ρ → Option (κ × ρ)
  | .outside | .entering _ | .locked _ | .testing _ | .yielding _ | .asleep _ => none
  | .notifying c r | .leaving c r | .unlocking c r => some (c, r)

theorem result_move (m : State τ κ σ ρ) {p : Phase κ ρ} (hp : p.result = (m.phase t).result)
    (u : τ) : ((m.move t p).phase u).result = (m.phase u).result := by
  by_cases hu : u = t
  · subst hu
    rw [move_self, hp]
  · rw [move_of_ne m p hu]

/-- **What a step can do** to the data, the log and the results on their way: nothing, or it
    is a body, or a return. -/
theorem Step.effect (h : Step proc may m e m') :
    ((∀ t c r, e ≠ .return t c r) ∧ m'.data = m.data ∧ m'.log = m.log ∧
      ∀ u, (m'.phase u).result = (m.phase u).result) ∨
    (∃ t c, e = .inner t ∧ m.phase t = .testing c ∧ (proc c).guard m.data = true ∧
      m'.data = ((proc c).body m.data).1 ∧
      m'.log = m.log ++ [⟨t, c, ((proc c).body m.data).2⟩] ∧
      m'.phase t = .notifying c ((proc c).body m.data).2 ∧ ∀ u, u ≠ t → m'.phase u = m.phase u) ∨
    ∃ t c r, e = .return t c r ∧ m.phase t = .unlocking c r ∧ m'.data = m.data ∧ m'.log = m.log ∧
      m'.phase t = .outside ∧ ∀ u, u ≠ t → m'.phase u = m.phase u := by
  cases h with
  | @body t c hphase hguard =>
    exact Or.inr (Or.inl ⟨t, c, rfl, hphase, hguard, rfl, rfl, move_self m t _,
      fun u hu => move_of_ne m _ hu⟩)
  | @unlock t c r hphase =>
    exact Or.inr (Or.inr ⟨t, c, r, rfl, hphase, rfl, rfl, move_self m t _,
      fun u hu => move_of_ne m _ hu⟩)
  | @notifyAll t c r hphase _ =>
    have hwake : ∀ u, (m.phase u).wake.result = (m.phase u).result := fun u => by
      cases m.phase u <;> rfl
    refine Or.inl ⟨(fun u d q heq => by cases heq), rfl, rfl, fun u => ?_⟩
    refine (result_move { m with phase := fun u => (m.phase u).wake } ?_ u).trans (hwake u)
    show _ = (m.phase t).wake.result
    rw [hphase]
    rfl
  | @notifyOne t v c d r hphase _ hasleep =>
    have hne : t ≠ v := by
      rintro rfl
      rw [hphase] at hasleep
      cases hasleep
    refine Or.inl ⟨(fun u d q heq => by cases heq), rfl, rfl, fun u => ?_⟩
    rw [result_move (m.move v (.entering d)) (by rw [move_of_ne m _ hne, hphase]; rfl),
      result_move m (by rw [hasleep]; rfl)]
  | call hphase _ | lock hphase _ | assign hphase | wait hphase _ | sleep hphase | wake hphase
  | notifyNobody hphase _ | notifyNone hphase _ _ | unassign hphase =>
    exact Or.inl ⟨(fun u d q heq => by cases heq), rfl, rfl, result_move m (by rw [hphase]; rfl)⟩

theorem Serial.step (h : Serial proc s m.log m.data) (hstep : Step proc may m e m') :
    Serial proc s m'.log m'.data := by
  rcases hstep.effect with ⟨_, hdata, hlog, _⟩ | ⟨t, c, _, _, hguard, hdata, hlog, _⟩ |
    ⟨_, _, _, _, _, hdata, hlog, _⟩
  · rw [hdata, hlog]
    exact h
  · rw [hdata, hlog]
    exact h.snoc hguard
  · rw [hdata, hlog]
    exact h

/-- The results that a thread has brought home. -/
def returns (t : τ) (tr : List (Event τ κ ρ)) : List (κ × ρ) :=
  tr.filterMap fun
    | .return u c r => if u = t then some (c, r) else none
    | .call _ _ | .inner _ | .wake _ => none

/-- The results of a thread's bodies. -/
def results (t : τ) (log : List (Entry τ κ ρ)) : List (κ × ρ) :=
  log.filterMap fun x => if x.thread = t then some (x.call, x.result) else none

/-- Nobody's result is lost or doubled. -/
def Accounted (tr : List (Event τ κ ρ)) (m : State τ κ σ ρ) : Prop :=
  ∀ t, results t m.log = returns t tr ++ (m.phase t).result.toList

theorem returns_append (t : τ) (tr tr' : List (Event τ κ ρ)) :
    returns t (tr ++ tr') = returns t tr ++ returns t tr' :=
  List.filterMap_append

theorem results_append (t : τ) (log log' : List (Entry τ κ ρ)) :
    results t (log ++ log') = results t log ++ results t log' :=
  List.filterMap_append

/-- What others do brings a thread nothing home. -/
theorem returns_other {tr : List (Event τ κ ρ)} (h : e.thread ≠ t) :
    returns t (tr ++ [e]) = returns t tr := by
  rw [returns_append]
  cases e with
  | «return» u c r =>
    have hu : u ≠ t := h
    simp [returns, hu]
  | call _ _ | inner _ | wake _ => exact List.append_nil _

theorem mem_results {log : List (Entry τ κ ρ)} (h : (c, r) ∈ results t log) : ⟨t, c, r⟩ ∈ log := by
  obtain ⟨⟨u, d, q⟩, hx, heq⟩ := List.mem_filterMap.mp h
  split at heq
  · rename_i hu
    cases heq
    obtain rfl : u = t := hu
    exact hx
  · cases heq

/-- What a call has returned stands in the log. -/
theorem Accounted.mem_log {tr : List (Event τ κ ρ)} (h : Accounted tr m)
    (hret : .return t c r ∈ tr) : ⟨t, c, r⟩ ∈ m.log := by
  refine mem_results ?_
  rw [h t]
  exact List.mem_append_left _ (List.mem_filterMap.mpr ⟨_, hret, if_pos rfl⟩)

theorem Accounted.step {tr : List (Event τ κ ρ)} (h : Accounted tr m)
    (hstep : Step proc may m e m') : Accounted (tr ++ [e]) m' := by
  intro u
  rcases hstep.effect with ⟨hret, _, hlog, hsame⟩ | ⟨t, c, rfl, hphase, _, _, hlog, hnew, hothers⟩ |
    ⟨t, c, r, rfl, hphase, _, hlog, hnew, hothers⟩
  · have hnone : returns u [e] = [] := by
      cases e with
      | «return» t c r => exact absurd rfl (hret t c r)
      | call _ _ | inner _ | wake _ => rfl
    rw [hlog, returns_append, hnone, List.append_nil, hsame]
    exact h u
  · rw [hlog, results_append, returns_append, h u, List.append_assoc, List.append_assoc]
    congr 1
    by_cases hu : u = t
    · subst hu
      rw [hnew, hphase]
      simp [results, returns, Phase.result]
    · rw [hothers u hu]
      simp [results, returns, Ne.symm hu]
  · rw [hlog, returns_append, h u, List.append_assoc]
    congr 1
    by_cases hu : u = t
    · subst hu
      rw [hnew, hphase]
      simp [returns, Phase.result]
    · rw [hothers u hu]
      simp [returns, Ne.symm hu]

/-- A thread gets a result from a body of its own only, and gives it away only when it
    returns. -/
theorem Step.result (h : Step proc may m e m') (u : τ) :
    (m'.phase u).result = (m.phase u).result ∨ m'.phase u = .outside ∨
      ∃ c, m.phase u = .testing c ∧ (proc c).guard m.data = true := by
  rcases h.effect with ⟨_, _, _, hsame⟩ | ⟨t, c, _, hphase, hguard, _, _, _, hothers⟩ |
    ⟨t, c, r, _, _, _, _, hout, hothers⟩
  · exact Or.inl (hsame u)
  · by_cases hu : u = t
    · exact Or.inr (Or.inr ⟨c, hu ▸ hphase, hguard⟩)
    · exact Or.inl (congrArg Phase.result (hothers u hu))
  · by_cases hu : u = t
    · exact Or.inr (Or.inl (hu ▸ hout))
    · exact Or.inl (congrArg Phase.result (hothers u hu))

-- ════════════════════════════════════════════════════════════════════════
-- Who calls what
-- ════════════════════════════════════════════════════════════════════════

/-- Every call is one that its thread may make. -/
structure Permitted (may : τ → κ → Prop) (m : State τ κ σ ρ) : Prop where
  log : ∀ x ∈ m.log, may x.thread x.call
  phase : ∀ t c, (m.phase t).call = some c → may t c

omit [DecidableEq τ] in
theorem start_permitted (may : τ → κ → Prop) (s : σ) :
    Permitted may (.start s : State τ κ σ ρ) where
  log := List.forall_mem_nil _
  phase _ _ h := absurd h (Option.some_ne_none _).symm

section Update

variable {phase : τ → Phase κ ρ} {p : Phase κ ρ}

/-- After a move: the one who moved, or another. -/
theorem update_cases {q : Phase κ ρ} (h : Function.update phase t p u = q) :
    u = t ∧ p = q ∨ u ≠ t ∧ phase u = q := by
  by_cases hut : u = t
  · subst hut
    rw [Function.update_self] at h
    exact Or.inl ⟨rfl, h⟩
  · rw [Function.update_of_ne hut] at h
    exact Or.inr ⟨hut, h⟩

theorem update_call (h : (Function.update phase t p u).call = some c) :
    u = t ∧ p.call = some c ∨ u ≠ t ∧ (phase u).call = some c := by
  rcases update_cases (rfl : Function.update phase t p u = _) with ⟨hut, hp⟩ | ⟨hut, hp⟩
  · exact Or.inl ⟨hut, hp ▸ h⟩
  · exact Or.inr ⟨hut, hp ▸ h⟩

omit [DecidableEq τ] in
theorem call_wake (p : Phase κ ρ) : p.wake.call = p.call := by
  cases p <;> rfl

end Update

/-- A thread moves on in the call it is in, or into one that it may make. -/
theorem Permitted.move (h : Permitted may m) {p : Phase κ ρ}
    (hcall : ∀ c, p.call = some c → may t c) :
    ∀ u c, ((m.move t p).phase u).call = some c → may u c := by
  intro u c hu
  rcases update_call hu with ⟨rfl, hp⟩ | ⟨_, hp⟩
  · exact hcall c hp
  · exact h.phase u c hp

/-- The calls that the threads are in. -/
def State.calls (m : State τ κ σ ρ) (t : τ) : Option κ := (m.phase t).call

/-- What an event makes of them. -/
def Event.calls (e : Event τ κ ρ) (f : τ → Option κ) : τ → Option κ :=
  match e with
  | .call t c => Function.update f t (some c)
  | .inner _ | .wake _ => f
  | .return t _ _ => Function.update f t none

theorem calls_move (m : State τ κ σ ρ) (t : τ) (p : Phase κ ρ) :
    (m.move t p).calls = Function.update m.calls t p.call := by
  funext u
  by_cases hu : u = t
  · subst hu
    rw [Function.update_self]
    exact congrArg Phase.call (move_self m u p)
  · rw [Function.update_of_ne hu]
    exact congrArg Phase.call (move_of_ne m p hu)

theorem calls_stay {p : Phase κ ρ} (h : p.call = (m.phase t).call) : (m.move t p).calls = m.calls := by
  rw [calls_move, h]
  exact Function.update_eq_self t m.calls

/-- A thread is in a call from the call to its return. -/
theorem Step.calls (h : Step proc may m e m') : m'.calls = e.calls m.calls := by
  cases h with
  | call _ _ => exact calls_move m _ _
  | unlock _ => exact calls_move m _ _
  | lock hphase _ | assign hphase | wait hphase _ | sleep hphase | wake hphase | body hphase _
  | notifyNobody hphase _ | notifyNone hphase _ _ | unassign hphase =>
    exact calls_stay (by rw [hphase]; rfl)
  | @notifyAll t c r hphase _ =>
    have hwoken : (State.mk m.data m.owner m.holder (fun u => (m.phase u).wake) m.log).calls = m.calls :=
      funext fun u => call_wake (m.phase u)
    refine Eq.trans (calls_stay ?_) hwoken
    show _ = (m.phase t).wake.call
    rw [hphase]
    rfl
  | @notifyOne t v c d r hphase _ hasleep =>
    have hne : t ≠ v := by
      rintro rfl
      rw [hphase] at hasleep
      cases hasleep
    have hone : (m.move v (.entering d)).calls = m.calls := calls_stay (by rw [hasleep]; rfl)
    refine Eq.trans (calls_stay ?_) hone
    rw [move_of_ne m _ hne, hphase]
    rfl

/-- No step takes another thread into a call or out of one. -/
theorem Step.call_other (h : Step proc may m e m') (hu : e.thread ≠ u) :
    (m'.phase u).call = (m.phase u).call := by
  refine (congrFun h.calls u).trans ?_
  cases e with
  | call t c | «return» t c r => exact Function.update_of_ne (Ne.symm hu) _ _
  | inner t | wake t => rfl

/-- Whoever does not make a new call is in one. -/
theorem Step.inside (h : Step proc may m e m') (hcall : ∀ u c, e ≠ .call u c) :
    (m.phase e.thread).call ≠ none := by
  intro hnone
  cases h with
  | call _ _ => exact hcall _ _ rfl
  | lock hphase _ | assign hphase | wait hphase _ | sleep hphase | wake hphase | body hphase _
  | notifyNobody hphase _ | notifyAll hphase _ | notifyOne hphase _ _ | notifyNone hphase _ _
  | unassign hphase | unlock hphase =>
    dsimp only [Event.thread] at hnone
    rw [hphase] at hnone
    cases hnone

theorem Permitted.step (h : Permitted may m) (hstep : Step proc may m e m') :
    Permitted may m' := by
  refine ⟨?_, ?_⟩
  · rcases hstep.effect with ⟨_, _, hlog, _⟩ | ⟨t, c, _, hphase, _, _, hlog, _⟩ |
      ⟨_, _, _, _, _, _, hlog, _⟩
    · rw [hlog]
      exact h.log
    · rw [hlog]
      refine List.forall_mem_append.mpr ⟨h.log, fun x hx => ?_⟩
      rw [List.mem_singleton.mp hx]
      exact h.phase t c (by rw [hphase]; rfl)
    · rw [hlog]
      exact h.log
  · cases hstep with
    | call hphase hmay =>
      refine h.move fun d hd => ?_
      cases hd
      exact hmay
    | lock hphase _ | assign hphase | wait hphase _ | sleep hphase | wake hphase | body hphase _
    | notifyNobody hphase _ | notifyNone hphase _ _ | unassign hphase =>
      refine h.move fun d hd => h.phase _ d ?_
      rw [hphase]
      exact hd
    | unlock hphase =>
      refine h.move fun d hd => ?_
      cases hd
    | @notifyAll t c r hphase _ =>
      have hwoken : Permitted may { m with phase := fun u => (m.phase u).wake } :=
        ⟨h.log, fun u d hu => h.phase u d (by rwa [call_wake] at hu)⟩
      refine hwoken.move fun d hd => h.phase t d ?_
      rw [hphase]
      exact hd
    | @notifyOne t u c d r hphase _ hasleep =>
      have hup : Permitted may (m.move u (.entering d)) :=
        ⟨h.log, h.move fun d' hd => h.phase u d' (by rw [hasleep]; exact hd)⟩
      refine hup.move fun d' hd => h.phase t d' ?_
      rw [hphase]
      exact hd

-- ════════════════════════════════════════════════════════════════════════
-- No lost wakeup
-- ════════════════════════════════════════════════════════════════════════

/-- The procedure may have to wait. -/
def Blocks (proc : κ → Procedure σ ρ) (c : κ) : Prop := ∃ s, (proc c).guard s = false

/-- At most one thread ever waits. -/
def Sole (proc : κ → Procedure σ ρ) (may : τ → κ → Prop) : Prop :=
  ∀ t u c d, may t c → may u d → Blocks proc c → Blocks proc d → t = u

/-- A notification that no sleeper misses. -/
def Heard (proc : κ → Procedure σ ρ) (may : τ → κ → Prop) (n : Notice) : Prop :=
  n = .all ∨ n = .one ∧ Sole proc may

/-- Whoever makes a guard true notifies everybody, or the one who can be waiting. -/
def Announces (proc : κ → Procedure σ ρ) (may : τ → κ → Prop) : Prop :=
  ∀ c d s, (proc c).guard s = true → (proc d).guard s = false →
    (proc d).guard ((proc c).body s).1 = true →
      Heard proc may ((proc c).notice ((proc c).body s).1)

/-- Nobody sleeps on a guard that is true, unless the notification is on its way. -/
structure Alert (proc : κ → Procedure σ ρ) (may : τ → κ → Prop) (s : σ)
    (phase : τ → Phase κ ρ) : Prop where
  blocks : ∀ t c, phase t = .asleep c → Blocks proc c
  yielding : ∀ t c, phase t = .yielding c → (proc c).guard s = false
  asleep : ∀ t c, phase t = .asleep c → (proc c).guard s = true →
    ∃ u d r, phase u = .notifying d r ∧ Heard proc may ((proc d).notice s)

section Alert

variable {phase phase' : τ → Phase κ ρ} {p : Phase κ ρ}

omit [DecidableEq τ] in
theorem alert_outside (proc : κ → Procedure σ ρ) (may : τ → κ → Prop) (s : σ) :
    Alert proc may s fun _ => (Phase.outside : Phase κ ρ) where
  blocks _ _ h := Phase.noConfusion rfl rfl (heq_of_eq h)
  yielding _ _ h := Phase.noConfusion rfl rfl (heq_of_eq h)
  asleep _ _ h := Phase.noConfusion rfl rfl (heq_of_eq h)

/-- A thread moves on that has nothing to announce. -/
theorem Alert.move (h : Alert proc may s phase)
    (hold : ∀ d r, phase t ≠ .notifying d r)
    (hnew : ∀ c, p = .yielding c ∨ p = .asleep c → (proc c).guard s = false) :
    Alert proc may s (Function.update phase t p) := by
  refine ⟨fun u c hu => ?_, fun u c hu => ?_, fun u c hu hguard => ?_⟩
  · rcases update_cases hu with ⟨rfl, hp⟩ | ⟨_, hp⟩
    · exact ⟨s, hnew c (Or.inr hp)⟩
    · exact h.blocks u c hp
  · rcases update_cases hu with ⟨rfl, hp⟩ | ⟨_, hp⟩
    · exact hnew c (Or.inl hp)
    · exact h.yielding u c hp
  · rcases update_cases hu with ⟨rfl, hp⟩ | ⟨_, hp⟩
    · rw [hnew c (Or.inr hp)] at hguard
      cases hguard
    · obtain ⟨v, d, r, hv, hheard⟩ := h.asleep u c hp hguard
      have hne : v ≠ t := by
        rintro rfl
        exact hold d r hv
      exact ⟨v, d, r, (Function.update_of_ne hne _ _).trans hv, hheard⟩

omit [DecidableEq τ] in
/-- Where every sleeper has its guard against it, no notification is due. -/
theorem Alert.calm (h : Alert proc may s phase)
    (hyield : ∀ u c, phase' u = .yielding c → phase u = .yielding c)
    (hasleep : ∀ u c, phase' u = .asleep c → phase u = .asleep c ∧ (proc c).guard s = false) :
    Alert proc may s phase' where
  blocks u c hu := h.blocks u c (hasleep u c hu).1
  yielding u c hu := h.yielding u c (hyield u c hu)
  asleep u c hu hguard := by
    rw [(hasleep u c hu).2] at hguard
    cases hguard

/-- A notification is over that nobody is left to hear. -/
theorem Alert.quiet (h : Alert proc may s phase) (hphase : phase t = .notifying c r)
    (hno : ∀ u d, phase u = .asleep d → (proc d).guard s = false) :
    Alert proc may s (Function.update phase t (.leaving c r)) := by
  refine h.calm (fun u d hu => ?_) fun u d hu => ?_
  · rcases update_cases hu with ⟨rfl, hp⟩ | ⟨_, hp⟩
    · cases hp
    · exact hp
  · rcases update_cases hu with ⟨rfl, hp⟩ | ⟨_, hp⟩
    · cases hp
    · exact ⟨hp, hno u d hp⟩

omit [DecidableEq τ] in
/-- Only the owner can have a notification on its way. -/
theorem Alert.heard (h : Alert proc may s phase) {o : Option τ} (howner : Names o phase Phase.Owns)
    {d : κ} (hphase : phase t = .notifying c r) (hasleep : phase u = .asleep d)
    (hguard : (proc d).guard s = true) : Heard proc may ((proc c).notice s) := by
  obtain ⟨v, d', r', hv, hheard⟩ := h.asleep u d hasleep hguard
  have hvt : v = t := howner.eq (by rw [hv]; trivial) (by rw [hphase]; trivial)
  subst hvt
  rw [hphase] at hv
  cases hv
  exact hheard

/-- The owner runs its body, and goes on to notify whoever can now go on. -/
theorem Alert.body (h : Alert proc may s phase) {o : Option τ} (howner : Names o phase Phase.Owns)
    (hann : Announces proc may) (hphase : phase t = .testing c)
    (hguard : (proc c).guard s = true) (r : ρ) :
    Alert proc may ((proc c).body s).1 (Function.update phase t (.notifying c r)) := by
  have howns : (phase t).Owns := by
    rw [hphase]
    trivial
  refine ⟨fun u d hu => ?_, fun u d hu => ?_, fun u d hu htrue => ?_⟩
  · rcases update_cases hu with ⟨_, hp⟩ | ⟨_, hp⟩
    · cases hp
    · exact h.blocks u d hp
  · rcases update_cases hu with ⟨_, hp⟩ | ⟨hne, hp⟩
    · cases hp
    · exact absurd (howner.eq (by rw [hp]; trivial) howns) hne
  · rcases update_cases hu with ⟨_, hp⟩ | ⟨_, hp⟩
    · cases hp
    · refine ⟨t, c, r, Function.update_self _ _ _, hann c d s hguard ?_ htrue⟩
      by_contra hold
      obtain ⟨v, d', r', hv, _⟩ := h.asleep u d hp (Bool.not_eq_false _ ▸ hold)
      have hvt : v = t := howner.eq (by rw [hv]; trivial) howns
      rw [hvt, hphase] at hv
      cases hv

/-- Everybody is woken. -/
theorem Alert.notifyAll (h : Alert proc may s phase) (hphase : phase t = .notifying c r) :
    Alert proc may s (Function.update (fun u => (phase u).wake) t (.leaving c r)) := by
  refine h.calm (fun u d hu => ?_) fun u d hu => ?_
  · rcases update_cases hu with ⟨rfl, hp⟩ | ⟨_, hp⟩
    · cases hp
    · cases hpu : phase u <;> rw [hpu] at hp <;> cases hp
      rfl
  · rcases update_cases hu with ⟨rfl, hp⟩ | ⟨_, hp⟩
    · cases hp
    · cases hpu : phase u <;> rw [hpu] at hp <;> cases hp

/-- The one sleeper is woken, or somebody whose waking was not called for. -/
theorem Alert.notifyOne (h : Alert proc may s phase)
    (hasked : ∀ t c, (phase t).call = some c → may t c) {o : Option τ}
    (howner : Names o phase Phase.Owns) {d : κ} (hphase : phase t = .notifying c r)
    (hnotice : (proc c).notice s = .one) (hasleep : phase u = .asleep d) :
    Alert proc may s
      (Function.update (Function.update phase u (.entering d)) t (.leaving c r)) := by
  have hne : t ≠ u := by
    rintro rfl
    rw [hphase] at hasleep
    cases hasleep
  have hup : Alert proc may s (Function.update phase u (.entering d)) := by
    refine h.move (fun d' r' heq => ?_) fun d' hd => ?_
    · rw [hasleep] at heq
      cases heq
    · rcases hd with hd | hd <;> cases hd
  refine hup.quiet ((Function.update_of_ne hne _ _).trans hphase) fun v d' hv => ?_
  rcases update_cases hv with ⟨_, hp⟩ | ⟨hvu, hp⟩
  · cases hp
  · by_contra htrue
    have hheard := h.heard howner hphase hp (Bool.not_eq_false _ ▸ htrue)
    rw [hnotice] at hheard
    rcases hheard with hheard | ⟨_, hsole⟩
    · cases hheard
    · refine hvu (hsole v u d' d ?_ ?_ (h.blocks v d' hp) (h.blocks u d hasleep))
      · exact hasked v d' (by rw [hp]; rfl)
      · exact hasked u d (by rw [hasleep]; rfl)

end Alert

/-- **No lost wakeup**: every operation keeps this, if whoever makes a guard true notifies. -/
theorem Alert.step (h : Alert proc may m.data m.phase) (hex : Exclusive m)
    (hperm : Permitted may m) (hann : Announces proc may) (hstep : Step proc may m e m') :
    Alert proc may m'.data m'.phase := by
  cases hstep with
  | call hphase _ | lock hphase _ | assign hphase | wake hphase | unassign hphase | unlock hphase =>
    refine h.move (fun d r heq => ?_) fun d hd => ?_
    · rw [hphase] at heq
      cases heq
    · rcases hd with hd | hd <;> cases hd
  | wait hphase hguard =>
    refine h.move (fun d r heq => ?_) fun d hd => ?_
    · rw [hphase] at heq
      cases heq
    · rcases hd with hd | hd <;> cases hd
      exact hguard
  | sleep hphase =>
    refine h.move (fun d r heq => ?_) fun d hd => ?_
    · rw [hphase] at heq
      cases heq
    · rcases hd with hd | hd <;> cases hd
      exact h.yielding _ _ hphase
  | body hphase hguard => exact h.body hex.owner hann hphase hguard _
  | notifyNobody hphase hnotice =>
    refine h.quiet hphase fun u d hu => ?_
    by_contra htrue
    have hheard := h.heard hex.owner hphase hu (Bool.not_eq_false _ ▸ htrue)
    rw [hnotice] at hheard
    rcases hheard with hheard | ⟨hheard, _⟩ <;> cases hheard
  | notifyNone hphase _ hnone => exact h.quiet hphase fun u d hu => absurd hu (hnone u d)
  | notifyAll hphase _ => exact h.notifyAll hphase
  | notifyOne hphase hnotice hasleep => exact h.notifyOne hperm.phase hex.owner hphase hnotice hasleep

-- ════════════════════════════════════════════════════════════════════════
-- Runs
-- ════════════════════════════════════════════════════════════════════════

/-- What a run of the monitor keeps, with the labels that led there. -/
structure Sound (proc : κ → Procedure σ ρ) (may : τ → κ → Prop) (s : σ)
    (tr : List (Event τ κ ρ)) (m : State τ κ σ ρ) : Prop where
  exclusive : Exclusive m
  permitted : Permitted may m
  serial : Serial proc s m.log m.data
  accounted : Accounted tr m

theorem start_sound (proc : κ → Procedure σ ρ) (may : τ → κ → Prop) (s : σ) :
    Sound proc may s [] (.start s : State τ κ σ ρ) :=
  ⟨start_exclusive s, start_permitted may s, .nil, fun _ => rfl⟩

theorem Sound.step {tr : List (Event τ κ ρ)} (h : Sound proc may s tr m)
    (hstep : Step proc may m e m') : Sound proc may s (tr ++ [e]) m' :=
  ⟨h.exclusive.step hstep, h.permitted.step hstep, h.serial.step hstep, h.accounted.step hstep⟩

/-- **Linearizability.** In every run the bodies, one after the other, make the data what
    it is; each thread has got from them, in order, what its calls have returned, and
    at most one result that is still on its way home. -/
theorem run_sound {tr : List (Event τ κ ρ)} (h : (system proc may s).Run (.start s) tr m) :
    Sound proc may s tr m :=
  h.trace_invariant (start_sound proc may s) fun _ _ _ _ hsound hstep => hsound.step hstep

theorem run_alert (hann : Announces proc may) {tr : List (Event τ κ ρ)}
    (h : (system proc may s).Run (.start s) tr m) : Alert proc may m.data m.phase := by
  have hboth : Sound proc may s tr m ∧ Alert proc may m.data m.phase :=
    h.trace_invariant (I := fun tr m => Sound proc may s tr m ∧ Alert proc may m.data m.phase)
      ⟨start_sound proc may s, alert_outside proc may s⟩ fun _ _ _ _ hm hstep =>
        ⟨hm.1.step hstep, hm.2.step hm.1.exclusive hm.1.permitted hann hstep⟩
  exact hboth.2

/-- Nothing can happen but new calls and wakings for no reason. -/
def Quiescent (proc : κ → Procedure σ ρ) (may : τ → κ → Prop) (m : State τ κ σ ρ) : Prop :=
  ∀ e m', Step proc may m e m' → (∃ t c, e = .call t c) ∨ ∃ t, e = .wake t

/-- Elsewhere a thread can go on in its call, or return from it. -/
theorem exists_step_of_not_quiescent (h : ¬Quiescent proc may m) :
    ∃ e m', Step proc may m e m' ∧ (∀ t c, e ≠ .call t c) ∧ ∀ t, e ≠ .wake t := by
  simp only [Quiescent, not_forall, not_or, not_exists] at h
  obtain ⟨e, m', hstep, hcall, hwake⟩ := h
  exact ⟨e, m', hstep, hcall, hwake⟩

/-- Where every call has returned, there is nothing to go on with. -/
theorem quiescent_of_outside (h : ∀ t, m.phase t = .outside) : Quiescent proc may m := by
  intro e m' hstep
  cases hstep with
  | call _ _ => exact Or.inl ⟨_, _, rfl⟩
  | wake _ => exact Or.inr ⟨_, rfl⟩
  | lock hphase _ | assign hphase | wait hphase _ | sleep hphase | body hphase _
  | notifyNobody hphase _ | notifyAll hphase _ | notifyOne hphase _ _ | notifyNone hphase _ _
  | unassign hphase | unlock hphase =>
    rw [h] at hphase
    cases hphase

/-- The owner of the mutex can always go on. -/
theorem exists_step_of_owns (h : (m.phase t).Owns) :
    ∃ e m', Step proc may m e m' ∧ (∀ u c, e ≠ .call u c) ∧ ∀ u, e ≠ .wake u := by
  have hinner : ∀ {m'}, Step proc may m (.inner t) m' →
      ∃ e m', Step proc may m e m' ∧ (∀ u c, e ≠ .call u c) ∧ ∀ u, e ≠ .wake u := by
    intro m' hstep
    refine ⟨_, _, hstep, fun u c heq => ?_, fun u heq => ?_⟩
    · cases heq
    · cases heq
  cases hphase : m.phase t with
  | outside | entering c | asleep c =>
    rw [hphase] at h
    exact absurd h id
  | locked c => exact hinner (.assign hphase)
  | testing c =>
    cases hguard : (proc c).guard m.data with
    | true => exact hinner (.body hphase hguard)
    | false => exact hinner (.wait hphase hguard)
  | yielding c => exact hinner (.sleep hphase)
  | notifying c r =>
    cases hnotice : (proc c).notice m.data with
    | nobody => exact hinner (.notifyNobody hphase hnotice)
    | all => exact hinner (.notifyAll hphase hnotice)
    | one =>
      by_cases hnone : ∀ u d, m.phase u ≠ .asleep d
      · exact hinner (.notifyNone hphase hnotice hnone)
      · simp only [not_forall, not_not] at hnone
        obtain ⟨u, d, hasleep⟩ := hnone
        exact hinner (.notifyOne hphase hnotice hasleep)
  | leaving c r => exact hinner (.unassign hphase)
  | unlocking c r =>
    refine ⟨_, _, .unlock hphase, fun u d heq => ?_, fun u heq => ?_⟩
    · cases heq
    · cases heq

/-- **Who is stuck.** Where no thread can go on in its call, every call has returned but
    those that sleep on a guard that does not hold. -/
theorem Quiescent.phase (h : Quiescent proc may m) (hex : Exclusive m)
    (halert : Alert proc may m.data m.phase) (t : τ) :
    m.phase t = .outside ∨ ∃ c, m.phase t = .asleep c ∧ (proc c).guard m.data = false := by
  have hfree : ∀ u, ¬(m.phase u).Owns := by
    intro u hu
    obtain ⟨e, m', hstep, hcall, hwake⟩ : ∃ e m', Step proc may m e m' ∧ (∀ v c, e ≠ .call v c) ∧
        ∀ v, e ≠ .wake v := exists_step_of_owns hu
    rcases h e m' hstep with ⟨v, c, rfl⟩ | ⟨v, rfl⟩
    · exact hcall v c rfl
    · exact hwake v rfl
  have hnone : m.owner = none := by
    cases howner : m.owner with
    | none => rfl
    | some u => exact absurd ((hex.owner u).mp howner) (hfree u)
  cases hphase : m.phase t with
  | outside => exact Or.inl rfl
  | entering c =>
    rcases h _ _ (.lock hphase hnone) with ⟨_, _, heq⟩ | ⟨_, heq⟩
    · cases heq
    · cases heq
  | asleep c =>
    refine Or.inr ⟨c, rfl, ?_⟩
    by_contra htrue
    obtain ⟨u, d, r, hu, _⟩ := halert.asleep t c hphase (Bool.not_eq_false _ ▸ htrue)
    exact hfree u (by rw [hu]; trivial)
  | locked c | testing c | yielding c | notifying c r | leaving c r | unlocking c r =>
    exact absurd (by rw [hphase]; trivial) (hfree t)

-- ════════════════════════════════════════════════════════════════════════
-- Calls come to an end
-- ════════════════════════════════════════════════════════════════════════

section Bounded

variable [Fintype τ]

/-- The steps a thread has before it, if the `n` threads it may wake are counted in. -/
def Phase.weight (n : Nat) : Phase κ ρ → Nat
  | .outside => 0
  | .unlocking _ _ => 1
  | .leaving _ _ => 2
  | .notifying _ _ => 4 * n + 3
  | .asleep _ => 4 * n + 2
  | .yielding _ => 4 * n + 3
  | .testing _ => 4 * n + 4
  | .locked _ => 4 * n + 5
  | .entering _ => 4 * n + 6

/-- The weight of all threads. -/
def weight (phase : τ → Phase κ ρ) : Nat := ∑ t, (phase t).weight (Fintype.card τ)

theorem weight_update (phase : τ → Phase κ ρ) (t : τ) (p : Phase κ ρ) :
    weight (Function.update phase t p) + (phase t).weight (Fintype.card τ) =
      weight phase + p.weight (Fintype.card τ) := by
  have hcomp : (fun u => (Function.update phase t p u).weight (Fintype.card τ)) =
      Function.update (fun u => (phase u).weight (Fintype.card τ)) t (p.weight (Fintype.card τ)) := by
    funext u
    by_cases hu : u = t
    · subst hu
      rw [Function.update_self, Function.update_self]
    · rw [Function.update_of_ne hu, Function.update_of_ne hu]
  rw [weight, hcomp, Finset.sum_update_of_mem (Finset.mem_univ t), weight,
    Finset.sum_eq_add_sum_sdiff_singleton_of_mem (Finset.mem_univ t)]
  omega

omit [DecidableEq τ] in
theorem weight_wake (phase : τ → Phase κ ρ) :
    weight (fun u => (phase u).wake) ≤ weight phase + 4 * Fintype.card τ := by
  have hone : ∀ p : Phase κ ρ,
      p.wake.weight (Fintype.card τ) ≤ p.weight (Fintype.card τ) + 4 := by
    intro p
    cases p <;> simp [Phase.wake, Phase.weight]
  calc weight (fun u => (phase u).wake) ≤ ∑ u, ((phase u).weight (Fintype.card τ) + 4) :=
        Finset.sum_le_sum fun u _ => hone (phase u)
    _ = weight phase + 4 * Fintype.card τ := by
        rw [Finset.sum_add_distrib, Finset.sum_const, Finset.card_univ, smul_eq_mul, mul_comm]
        rfl

/-- A step inside a call, and its return. -/
def Event.cost : Event τ κ ρ → Nat
  | .call _ _ | .wake _ => 0
  | .inner _ | .return _ _ _ => 1

def Event.credit (n : Nat) : Event τ κ ρ → Nat
  | .call _ _ => 4 * n + 6
  | .wake _ => 4
  | .inner _ | .return _ _ _ => 0

theorem weight_move {phase : τ → Phase κ ρ} {p : Phase κ ρ} {j k : Nat}
    (h : p.weight (Fintype.card τ) + j ≤ (phase t).weight (Fintype.card τ) + k) :
    weight (Function.update phase t p) + j ≤ weight phase + k := by
  have hup := weight_update phase t p
  omega

theorem Step.weight (h : Step proc may m e m') :
    weight m'.phase + e.cost ≤ weight m.phase + e.credit (Fintype.card τ) := by
  cases h with
  | call hphase _ | lock hphase _ | assign hphase | wait hphase _ | sleep hphase | wake hphase
  | body hphase _ | notifyNobody hphase _ | notifyNone hphase _ _ | unassign hphase
  | unlock hphase =>
    refine weight_move ?_
    rw [hphase]
    simp only [Phase.weight, Event.cost, Event.credit]
    omega
  | @notifyAll t c r hphase _ =>
    have hwake := weight_wake m.phase
    have hup := weight_update (fun u => (m.phase u).wake) t (.leaving c r)
    have hself : (m.phase t).wake = .notifying c r := by
      rw [hphase]
      rfl
    rw [hself, Phase.weight, Phase.weight] at hup
    show Monitor.weight (Function.update (fun u => (m.phase u).wake) t (.leaving c r)) + 1 ≤ _ + 0
    omega
  | @notifyOne t u c d r hphase _ hasleep =>
    have hne : t ≠ u := by
      rintro rfl
      rw [hphase] at hasleep
      cases hasleep
    have hpos : 0 < Fintype.card τ := Fintype.card_pos_iff.mpr ⟨t⟩
    have hone := weight_update m.phase u (.entering d)
    have htwo := weight_update (Function.update m.phase u (.entering d)) t (.leaving c r)
    rw [hasleep] at hone
    rw [Function.update_of_ne hne, hphase] at htwo
    simp only [Phase.weight] at hone htwo
    show Monitor.weight (Function.update (Function.update m.phase u (.entering d)) t
      (.leaving c r)) + 1 ≤ _ + 0
    omega

/-- **Calls come to an end**, or sleep: the steps that threads take inside their calls are
    bounded by the number of calls and of wakings for no reason, in every run. -/
theorem run_bounded {tr : List (Event τ κ ρ)} (h : (system proc may s).Run (.start s) tr m) :
    (tr.map Event.cost).sum ≤ (tr.map (Event.credit (Fintype.card τ))).sum := by
  have hrun := h.cost_le (fun m => weight m.phase) (I := fun _ => True)
    (fun _ _ _ _ _ => trivial) (fun _ _ _ _ hstep => Step.weight hstep) trivial
  have hstart : weight (State.start s : State τ κ σ ρ).phase = 0 := Finset.sum_const_zero
  omega

end Bounded

end Monitor
